import Seuss.Invoker.SessionLemmas

/-!
This module contains which request the session takes a response for. It never looks at what it has
sent: a response is the one to `/init` when its body says so and none has said so before.
-/

namespace Seuss
namespace Invoker

open InvocationSession

variable {cfg : SessionConfig} {s t : InvocationSession} {env : Env}

def initPath : CString := "/init".toList

def runPath : CString := "/run".toList

def bodyOf (response : CString) : CString :=
  match response with
  | '\r' :: '\n' :: '\r' :: '\n' :: body => body
  | _ :: rest => bodyOf rest
  | [] => []

def received (es : List (Env × SessionEvent)) : List MutIOBuf :=
  es.filterMap fun e =>
    match e.2 with
    | .receive b => some b
    | _ => none

structure Paired (i : Nat) (b : MutIOBuf) (s t : InvocationSession) : Prop where
  initialized : .setValue .initialized ∈ effectsSince s t → s.requests[i]? = some initPath
  executed : .setValue .executed ∈ effectsSince s t ↔ s.requests[i]? = some runPath
  reply : s.requests[i]? = some runPath →
    t.reply = bodyOf b.data ∧ ∃ istats, .resolve istats (bodyOf b.data) ∈ effectsSince s t
  noReply : s.requests[i]? ≠ some runPath →
    t.reply = s.reply ∧ ∀ istats ret, .resolve istats ret ∉ effectsSince s t
  run : t.requests.count runPath ≤ 1

def PairedRun (cfg : SessionConfig) (i : Nat) (s : InvocationSession)
    (es : List (Env × SessionEvent)) : Prop :=
  match es with
  | [] => True
  | e :: es =>
    ∀ t, stepSession cfg s e = some t →
      match e.2 with
      | .receive b => Paired i b s t ∧ PairedRun cfg (i + 1) t es
      | _ => PairedRun cfg i t es

inductive Due where
  | init
  | run (withCode : Bool)
  | nothing
  deriving DecidableEq

def firstDue (code : CString) : Due :=
  if code ≠ [] then .init else .run false

def Due.next (due : Due) : Due :=
  match due with
  | .init => .run true
  | .run _ => .nothing
  | .nothing => .nothing

-- The text from the first brace on is what the session reads of a response.
def Due.Answers (due : Due) (b : MutIOBuf) : Prop :=
  match due with
  | .init =>
    responseOf b.data = some InvocationSession.initialized ∨ responseOf b.data = none
  | .run withCode =>
    responseOf b.data = some (bodyOf b.data)
      ∧ (withCode = false → bodyOf b.data ≠ InvocationSession.initialized)
  | .nothing => responseOf b.data = none

-- The same, whatever there is before the brace.
def Due.Meets (due : Due) (b : MutIOBuf) : Prop :=
  match due with
  | .init =>
    responseOf b.data = some InvocationSession.initialized ∨ responseOf b.data = none
  | .run withCode =>
    ∃ response, responseOf b.data = some response
      ∧ (withCode = false → response ≠ InvocationSession.initialized)
  | .nothing => responseOf b.data = none

theorem Due.Answers.meets {due : Due} {b : MutIOBuf} (h : due.Answers b) : due.Meets b := by
  cases due with
  | init => exact h
  | run withCode => exact ⟨_, h.1, h.2⟩
  | nothing => exact h

def InTurn (due : Due) (bs : List MutIOBuf) : Prop :=
  match bs with
  | [] => True
  | b :: bs => due.Answers b ∧ InTurn due.next bs

inductive Phase (tid : UInt64) (s : InvocationSession) : Due → Nat → Prop where
  | init (requests : s.requests = [initPath]) (replies : s.replies = [])
      (isInitialized : s.isInitialized = false) (initialized : s.satisfied .initialized = false)
      (executed : s.satisfied .executed = false) : Phase tid s .init 0
  | runOnly (requests : s.requests = [runPath]) (replies : s.replies = [])
      (isInitialized : s.isInitialized = false) (executed : s.satisfied .executed = false) :
      Phase tid s (.run false) 0
  | run (requests : s.requests = [initPath, runPath]) (replies : s.replies = [])
      (isInitialized : s.isInitialized = true) (executed : s.satisfied .executed = false) :
      Phase tid s (.run true) 1
  | nothing (i : Nat) (requests : s.requests.length ≤ i) (run : s.requests.count runPath ≤ 1)
      (replies : s.replies.map (·.1.transactionId) = [tid]) : Phase tid s .nothing i

structure AtDue (tid : UInt64) (due : Due) (i : Nat) (s : InvocationSession) : Prop where
  transactionId : s.istats.transactionId = tid
  openers : s.spawned.filter Spawned.opens = []
  connecting : s.connecting = false
  phase : Phase tid s due i

theorem AtDue.kept {tid : UInt64} {due : Due} {i : Nat} (h : AtDue tid due i s) (hkept : Kept s t) :
    AtDue tid due i t := by
  constructor
  . rw [hkept.istats, h.transactionId]
  . rw [hkept.openers, h.openers]
  . rw [hkept.connecting, h.connecting]
  . cases h.phase with
    | init requests replies isInitialized initialized executed =>
      apply Phase.init
      . rw [hkept.requests, requests]
      . rw [hkept.replies, replies]
      . rw [hkept.isInitialized, isInitialized]
      . rw [hkept.initialized, initialized]
      . rw [hkept.executed, executed]
    | runOnly requests replies isInitialized executed =>
      apply Phase.runOnly
      . rw [hkept.requests, requests]
      . rw [hkept.replies, replies]
      . rw [hkept.isInitialized, isInitialized]
      . rw [hkept.executed, executed]
    | run requests replies isInitialized executed =>
      apply Phase.run
      . rw [hkept.requests, requests]
      . rw [hkept.replies, replies]
      . rw [hkept.isInitialized, isInitialized]
      . rw [hkept.executed, executed]
    | nothing i requests run replies =>
      apply Phase.nothing
      . rwa [hkept.requests]
      . rwa [hkept.requests]
      . rwa [hkept.replies]

theorem kept_of_atDue {tid : UInt64} {due : Due} {i : Nat} {e : SessionEvent} (h : AtDue tid due i s)
    (hreceive : ∀ b, e ≠ .receive b) (hstep : stepSession cfg s (env, e) = some t) :
    Kept s t := by
  cases sessionStep_of_stepSession hstep with
  | connected hconnecting =>
    rw [h.connecting] at hconnecting
    cases hconnecting
  | receive b => exact absurd rfl (hreceive b)
  | opens k e hget hopens =>
    have hmem : e ∈ s.spawned.filter Spawned.opens :=
      List.mem_filter.mpr ⟨List.mem_of_getElem? hget, hopens⟩
    rw [h.openers] at hmem
    cases hmem
  | kept e _ hkept => exact hkept

section receive

structure ExecutedStep (response : CString) (s t : InvocationSession) : Prop where
  effects : t.effects = s.effects ++ [.setValue .executed, .resolve t.istats response]
  reply : t.reply = response
  transactionId : t.istats.transactionId = s.istats.transactionId
  spawned : t.spawned = s.spawned
  connecting : t.connecting = s.connecting

inductive InitializedStep (s t : InvocationSession) : Prop where
  -- `/run` has no payload
  | stopped (stopped : t.stopped ≠ none)
      (effects : t.effects = s.effects ++ [.setValue .initialized]) (reply : t.reply = s.reply)
  | sent (msg : CString)
      (effects : t.effects = s.effects ++ [.setValue .initialized, .send runPath msg])
      (reply : t.reply = s.reply)
      (isInitialized : t.isInitialized = true)
      (executed : t.satisfied .executed = s.satisfied .executed)
      (transactionId : t.istats.transactionId = s.istats.transactionId)
      (spawned : t.spawned = s.spawned)
      (connecting : t.connecting = s.connecting)

theorem executedStep_of_receiveResponse {response : CString}
    (hresponse : s.isInitialized = true ∨ response ≠ InvocationSession.initialized)
    (hexecuted : s.satisfied .executed = false) :
    ExecutedStep response s
      (receiveResponse cfg.promises (handlers cfg) env response s).settle := by
  rw [receiveResponse_of_executed hresponse, setValue_of_unsatisfied]
  . constructor
    . simp [handlers, whenExecuted, Promises.callback, Outcome.settle, emit]
    all_goals rfl
  . exact hexecuted

theorem initializedStep_of_whenInitialized {u : InvocationSession}
    (effects : u.effects = s.effects ++ [.setValue .initialized]) (reply : u.reply = s.reply)
    (isInitialized : u.isInitialized = true)
    (executed : u.satisfied .executed = s.satisfied .executed) (istats : u.istats = s.istats)
    (spawned : u.spawned = s.spawned) (connecting : u.connecting = s.connecting) :
    InitializedStep s (cfg.promises.callback (whenInitialized cfg env u)).settle := by
  unfold whenInitialized
  cases sendHttpRequest_cases cfg.build env.now runPath cfg.args false
    { u with istats.exec.initTime := u.getInittime env.now } with
  | inl hsend =>
    rw [runPath] at hsend
    rw [hsend, callback_kassert]
    apply InitializedStep.stopped
    . simp [Outcome.settle]
    . exact effects
    . exact reply
  | inr hsend =>
    rcases hsend with ⟨msg, t, hsend, hsent⟩
    rw [runPath] at hsend
    rw [hsend]
    apply InitializedStep.sent msg
    . rw [Promises.callback, Outcome.settle, hsent.effects, effects, List.append_assoc]
      rfl
    . exact hsent.reply.trans reply
    . exact hsent.isInitialized.trans isInitialized
    . rw [Promises.callback, Outcome.settle, hsent.satisfied]
      exact executed
    . have htid := congrArg InvocationStats.transactionId istats
      rw [Promises.callback, Outcome.settle, hsent.istats]
      exact htid
    . exact hsent.spawned.trans spawned
    . exact hsent.connecting.trans connecting

theorem initializedStep_of_receiveResponse (hinit : s.isInitialized = false)
    (hinitialized : s.satisfied .initialized = false) :
    InitializedStep s
      (receiveResponse cfg.promises (handlers cfg) env InvocationSession.initialized s).settle := by
  rw [receiveResponse_of_initialized rfl hinit, setValue_of_unsatisfied]
  . apply initializedStep_of_whenInitialized <;> rfl
  . exact hinitialized

theorem stepSession_receive {b : MutIOBuf} (h : stepSession cfg s (env, .receive b) = some t) :
    s.stopped = none ∧ t = (s.receive cfg.promises (handlers cfg) env b).settle := by
  rw [stepSession_eq_some] at h
  rcases h with ⟨hstopped, o, ho, rfl⟩
  cases ho
  exact ⟨hstopped, rfl⟩

theorem paired_of_no_response {b : MutIOBuf} {i : Nat} (heffects : t.effects = s.effects)
    (hreply : t.reply = s.reply) (hrun : s.requests.count runPath ≤ 1) :
    Paired i b s t ↔ s.requests[i]? ≠ some runPath := by
  have hsince : effectsSince s t = [] := by
    apply effectsSince_append
    simp [heffects]
  constructor
  . intro hpaired hrequest
    have := hpaired.executed.mpr hrequest
    rw [hsince] at this
    cases this
  . intro hrequest
    constructor
    . simp [hsince]
    . simp [hsince, hrequest]
    . intro h
      exact absurd h hrequest
    . simp [hsince, hreply]
    . rwa [requests_congr heffects]

theorem Phase.count_run {tid : UInt64} {due : Due} {i : Nat} (h : Phase tid s due i) :
    s.requests.count runPath ≤ 1 := by
  cases h with
  | init requests =>
    rw [requests]
    decide
  | runOnly requests =>
    rw [requests]
    decide
  | run requests =>
    rw [requests]
    decide
  | nothing i requests run => exact run

theorem not_paired_of_executed {b : MutIOBuf} {i : Nat} {response : CString}
    (hresponse : s.isInitialized = true ∨ response ≠ InvocationSession.initialized)
    (hrequest : s.requests[i]? ≠ some runPath) :
    ¬ Paired i b s (receiveResponse cfg.promises (handlers cfg) env response s).settle := by
  intro hpaired
  apply hrequest
  apply hpaired.executed.mp
  rw [receiveResponse_of_executed hresponse]
  exact mem_effectsSince (List.prefix_refl _)
    (effects_setValue cfg env .executed { s with reply := response })

theorem not_paired_of_initialized {b : MutIOBuf} {i : Nat} (hinit : s.isInitialized = false)
    (hrequest : s.requests[i]? ≠ some initPath) :
    ¬ Paired i b s
      (receiveResponse cfg.promises (handlers cfg) env InvocationSession.initialized s).settle := by
  intro hpaired
  apply hrequest
  apply hpaired.initialized
  rw [receiveResponse_of_initialized rfl hinit]
  exact mem_effectsSince (List.prefix_refl _)
    (effects_setValue cfg env .initialized { s with isInitialized := true })

theorem ExecutedStep.requests {response : CString} (h : ExecutedStep response s t) :
    t.requests = s.requests :=
  (requests_append h.effects).trans (List.append_nil _)

theorem ExecutedStep.replies {response : CString} (h : ExecutedStep response s t) :
    t.replies = s.replies ++ [(t.istats, response)] :=
  replies_append h.effects

theorem ExecutedStep.paired_iff {b : MutIOBuf} {i : Nat} {response : CString}
    (h : ExecutedStep response s t) (hrequest : s.requests[i]? = some runPath)
    (hrun : s.requests.count runPath ≤ 1) :
    Paired i b s t ↔ response = bodyOf b.data := by
  have hsince := effectsSince_append h.effects
  constructor
  . intro hpaired
    rw [← h.reply]
    exact (hpaired.reply hrequest).1
  . rintro rfl
    constructor
    . simp [hsince]
    . simp [hsince, hrequest]
    . intro _
      exact ⟨h.reply, t.istats, by simp [hsince]⟩
    . intro hne
      exact absurd hrequest hne
    . rwa [h.requests]

theorem ExecutedStep.atDue {tid : UInt64} {due : Due} {i : Nat} {response : CString}
    (h : ExecutedStep response s t) (hdue : AtDue tid due i s) (hreplies : s.replies = [])
    (hrequests : s.requests.length ≤ i + 1) :
    AtDue tid .nothing (i + 1) t := by
  have htid : t.istats.transactionId = tid := h.transactionId.trans hdue.transactionId
  constructor
  . exact htid
  . rw [h.spawned, hdue.openers]
  . rw [h.connecting, hdue.connecting]
  . apply Phase.nothing
    . rwa [h.requests]
    . rw [h.requests]
      exact hdue.phase.count_run
    . simp [h.replies, hreplies, htid]

-- What is paired with `/init`: nothing that belongs to an execution has happened since.
theorem paired_of_initPath {b : MutIOBuf} {since : List Effect} (hrequests : s.requests = [initPath])
    (heffects : t.effects = s.effects ++ since) (hreply : t.reply = s.reply)
    (hexecuted : .setValue .executed ∉ since) (hresolve : ∀ istats ret, .resolve istats ret ∉ since)
    (hrun : t.requests.count runPath ≤ 1) :
    Paired 0 b s t := by
  have hfirst : s.requests[0]? ≠ some runPath := by
    rw [hrequests]
    decide
  have hsince := effectsSince_append heffects
  constructor
  . intro _
    rw [hrequests]
    rfl
  . rw [hsince]
    exact iff_of_false hexecuted hfirst
  . intro hrequest
    exact absurd hrequest hfirst
  . intro _
    rw [hsince]
    exact ⟨hreply, hresolve⟩
  . exact hrun

theorem InitializedStep.paired {b : MutIOBuf} (h : InitializedStep s t)
    (hrequests : s.requests = [initPath]) :
    Paired 0 b s t := by
  cases h with
  | stopped stopped effects reply =>
    apply paired_of_initPath hrequests effects reply (by simp) (by simp)
    rw [requests_append effects, hrequests]
    decide
  | sent msg effects reply =>
    have hne : initPath ≠ runPath := by decide
    apply paired_of_initPath hrequests effects reply (by simp) (by simp)
    rw [requests_append effects, hrequests]
    simp [List.filterMap, Effect.path?, hne]

theorem InitializedStep.atDue {tid : UInt64} (h : InitializedStep s t)
    (hdue : AtDue tid .init 0 s) :
    t.replies = s.replies ∧ t.stopped ≠ none ∨ AtDue tid (.run true) 1 t := by
  cases hdue.phase with
  | init requests replies isInitialized initialized executed =>
    cases h with
    | stopped stopped effects =>
      left
      rw [replies_append effects]
      exact ⟨List.append_nil _, stopped⟩
    | sent msg effects reply isInitialized' executed' transactionId spawned connecting =>
      right
      constructor
      . rw [transactionId, hdue.transactionId]
      . rw [spawned, hdue.openers]
      . rw [connecting, hdue.connecting]
      . apply Phase.run
        . rw [requests_append effects, requests]
          simp [List.filterMap, Effect.path?]
        . rw [replies_append effects, replies]
          simp [List.filterMap, Effect.reply?]
        . exact isInitialized'
        . rw [executed', executed]

-- Handling a response pairs it with its request exactly when it is the response that was due.
structure Handled (tid : UInt64) (due : Due) (i : Nat) (b : MutIOBuf) (s t : InvocationSession) :
    Prop where
  paired : Paired i b s t ↔ due.Answers b
  next : due.Meets b →
    (∀ withCode, due ≠ .run withCode) ∧ t.replies = s.replies ∧ t.stopped ≠ none
      ∨ AtDue tid due.next (i + 1) t

theorem handled_of_no_response {tid : UInt64} {due : Due} {i : Nat} {b : MutIOBuf}
    (h : AtDue tid due i s) (hstopped : t.stopped ≠ none) (heffects : t.effects = s.effects)
    (hreply : t.reply = s.reply) (hresponse : responseOf b.data = none) :
    Handled tid due i b s t := by
  have hne : initPath ≠ runPath := by decide
  constructor
  . rw [paired_of_no_response heffects hreply h.phase.count_run]
    cases h.phase with
    | init requests => simp [Due.Answers, requests, hresponse, hne]
    | runOnly requests => simp [Due.Answers, requests, hresponse]
    | run requests => simp [Due.Answers, requests, hresponse]
    | nothing i requests => simp [Due.Answers, hresponse, requests]
  . intro hmeets
    refine .inl ⟨?_, replies_congr heffects, hstopped⟩
    rintro withCode rfl
    rcases hmeets with ⟨response, hsome, _⟩
    cases hresponse.symm.trans hsome

section answered

variable {tid : UInt64} {due : Due} {i : Nat} {b : MutIOBuf} {response : CString}

theorem handled_of_not_paired (hpaired : ¬ Paired i b s t) (hmeets : ¬ due.Meets b) :
    Handled tid due i b s t := by
  constructor
  . exact iff_of_false hpaired fun hanswers => hmeets hanswers.meets
  . intro h
    exact absurd h hmeets

theorem handled_of_executed {withCode : Bool} (h : AtDue tid (.run withCode) i s)
    (hexecuted : ExecutedStep response s t) (hrequest : s.requests[i]? = some runPath)
    (hlength : s.requests.length ≤ i + 1) (hreplies : s.replies = [])
    (hresponse : responseOf b.data = some response)
    (hinit : withCode = false → response ≠ InvocationSession.initialized) :
    Handled tid (.run withCode) i b s t := by
  constructor
  . rw [hexecuted.paired_iff hrequest h.phase.count_run, Due.Answers, hresponse,
      Option.some.injEq]
    constructor
    . rintro rfl
      exact ⟨rfl, hinit⟩
    . intro hanswers
      exact hanswers.1
  . intro _
    exact .inr (hexecuted.atDue h hreplies hlength)

theorem handled_init (h : AtDue tid .init i s) (hresponse : responseOf b.data = some response) :
    Handled tid .init i b s
      (receiveResponse cfg.promises (handlers cfg) env response s).settle := by
  cases h.phase with
  | init requests replies isInitialized initialized executed =>
    by_cases hinit : response = InvocationSession.initialized
    . subst hinit
      have hstep : InitializedStep s (receiveResponse cfg.promises (handlers cfg) env
          InvocationSession.initialized s).settle :=
        initializedStep_of_receiveResponse isInitialized initialized
      constructor
      . simp [hstep.paired requests, Due.Answers, hresponse]
      . intro _
        exact (hstep.atDue h).imp_left (⟨by simp, ·⟩)
    . apply handled_of_not_paired
      . apply not_paired_of_executed (.inr hinit)
        rw [requests]
        decide
      . simp [Due.Meets, hresponse, hinit]

theorem handled_run {withCode : Bool} (h : AtDue tid (.run withCode) i s)
    (hresponse : responseOf b.data = some response) :
    Handled tid (.run withCode) i b s
      (receiveResponse cfg.promises (handlers cfg) env response s).settle := by
  cases h.phase with
  | runOnly requests replies isInitialized executed =>
    by_cases hinit : response = InvocationSession.initialized
    . subst hinit
      apply handled_of_not_paired
      . apply not_paired_of_initialized isInitialized
        rw [requests]
        decide
      . rintro ⟨response, hsome, hne⟩
        rw [hresponse, Option.some.injEq] at hsome
        exact hne rfl hsome.symm
    . have hstep : ExecutedStep response s
          (receiveResponse cfg.promises (handlers cfg) env response s).settle :=
        executedStep_of_receiveResponse (.inr hinit) executed
      apply handled_of_executed h hstep _ _ replies hresponse
      . intro _
        exact hinit
      . rw [requests]
        rfl
      . rw [requests]
        decide
  | run requests replies isInitialized executed =>
    have hstep : ExecutedStep response s
        (receiveResponse cfg.promises (handlers cfg) env response s).settle :=
      executedStep_of_receiveResponse (.inl isInitialized) executed
    apply handled_of_executed h hstep _ _ replies hresponse
    . intro hcode
      cases hcode
    . rw [requests]
      rfl
    . rw [requests]
      decide

theorem handled_nothing (h : AtDue tid .nothing i s) (hresponse : responseOf b.data = some response) :
    Handled tid .nothing i b s
      (receiveResponse cfg.promises (handlers cfg) env response s).settle := by
  cases h.phase with
  | nothing i requests run replies =>
    have hrequest : s.requests[i]? = none := by
      rwa [List.getElem?_eq_none_iff]
    apply handled_of_not_paired
    . by_cases hinit : s.isInitialized = false ∧ response = InvocationSession.initialized
      . rw [hinit.2]
        apply not_paired_of_initialized hinit.1
        simp [hrequest]
      . apply not_paired_of_executed
        . rw [not_and_or, Bool.not_eq_false] at hinit
          exact hinit
        . simp [hrequest]
    . simp [Due.Meets, hresponse]

theorem handled_of_step (h : AtDue tid due i s) (hok : IsOk b)
    (hstep : stepSession cfg s (env, .receive b) = some t) :
    Handled tid due i b s t := by
  rw [(stepSession_receive hstep).2]
  cases hresponse : responseOf b.data with
  | none =>
    rw [receive_of_no_response hok.isChained hresponse]
    apply handled_of_no_response (t := Outcome.settle (.threw .outOfRange s)) h _ rfl rfl hresponse
    simp [Outcome.settle]
  | some response =>
    rw [receive_of_isOk hok hresponse]
    cases due with
    | init => exact handled_init h hresponse
    | run withCode => exact handled_run h hresponse
    | nothing => exact handled_nothing h hresponse

end answered

end receive

section opening

structure Opening (tid : UInt64) (s : InvocationSession) : Prop where
  transactionId : s.istats.transactionId = tid
  requests : s.requests = []
  replies : s.replies = []
  isInitialized : s.isInitialized = false
  satisfied : ∀ sig, sig ≠ .closed → sig ≠ .aborted → s.satisfied sig = false
  progress :
    s.spawned.filter Spawned.opens = [.connect] ∧ s.connecting = false
      ∨ s.spawned.filter Spawned.opens = [] ∧ s.connecting = true
      ∨ s.spawned.filter Spawned.opens = [.setValue .connected] ∧ s.connecting = false

theorem Opening.congr {tid : UInt64} (h : Opening tid s) (istats : t.istats = s.istats)
    (requests : t.requests = s.requests) (replies : t.replies = s.replies)
    (isInitialized : t.isInitialized = s.isInitialized)
    (satisfied : ∀ sig, sig ≠ .closed → sig ≠ .aborted → t.satisfied sig = s.satisfied sig)
    (progress :
      t.spawned.filter Spawned.opens = [.connect] ∧ t.connecting = false
        ∨ t.spawned.filter Spawned.opens = [] ∧ t.connecting = true
        ∨ t.spawned.filter Spawned.opens = [.setValue .connected] ∧ t.connecting = false) :
    Opening tid t := by
  constructor
  . rw [istats, h.transactionId]
  . rw [requests, h.requests]
  . rw [replies, h.replies]
  . rw [isInitialized, h.isInitialized]
  . intro sig hclosed haborted
    rw [satisfied sig hclosed haborted, h.satisfied sig hclosed haborted]
  . exact progress

theorem Opening.kept {tid : UInt64} (h : Opening tid s) (hkept : Kept s t) : Opening tid t := by
  apply h.congr hkept.istats hkept.requests hkept.replies hkept.isInitialized hkept.satisfied
  rw [hkept.openers, hkept.connecting]
  exact h.progress

def Opened (cfg : SessionConfig) (tid : UInt64) (s : InvocationSession) : Prop :=
  Opening tid s
    ∨ s.requests = [] ∧ s.replies = [] ∧ s.stopped ≠ none
    ∨ AtDue tid (firstDue cfg.code) 0 s

theorem opening_connected {tid : UInt64} (h : Opening tid s) (hconnecting : s.connecting = true) :
    Opening tid (s.connected env.now) := by
  have hopeners : s.spawned.filter Spawned.opens = [] := by
    rcases h.progress with ⟨_, hfalse⟩ | ⟨hopeners, _⟩ | ⟨_, hfalse⟩
    . rw [hfalse] at hconnecting
      cases hconnecting
    . exact hopeners
    . rw [hfalse] at hconnecting
      cases hconnecting
  have hkept : Kept { s with isConnected := true, connecting := false }
      (enableTimer env.now {
        disableTimer { s with isConnected := true, connecting := false } with
        timeout := env.now + 60 * 1000000000
      }) := by
    apply Kept.trans _ kept_enableTimer
    apply kept_disableTimer.trans
    apply kept_of_eq <;> rfl
  refine h.congr hkept.istats hkept.requests hkept.replies hkept.isInitialized hkept.satisfied ?_
  refine .inr (.inr ⟨?_, hkept.connecting⟩)
  simp only [connected, spawn, List.filter_append, hkept.openers, hopeners]
  rfl

theorem Opening.opener {tid : UInt64} {k : Nat} {e : Spawned} (h : Opening tid s)
    (hget : s.spawned[k]? = some e) (hopens : e.opens = true) :
    (e = .connect ∨ e = .setValue .connected)
      ∧ (s.spawned.eraseIdx k).filter Spawned.opens = []
      ∧ s.connecting = false := by
  rcases h.progress with ⟨hopeners, hconnecting⟩ | ⟨hopeners, _⟩ | ⟨hopeners, hconnecting⟩
  . rcases Pool.filter_take_of_singleton hget hopens hopeners with ⟨rfl, hrest⟩
    exact ⟨.inl rfl, hrest, hconnecting⟩
  . have hmem : e ∈ s.spawned.filter Spawned.opens :=
      List.mem_filter.mpr ⟨List.mem_of_getElem? hget, hopens⟩
    rw [hopeners] at hmem
    cases hmem
  . rcases Pool.filter_take_of_singleton hget hopens hopeners with ⟨rfl, hrest⟩
    exact ⟨.inr rfl, hrest, hconnecting⟩

theorem opened_connect {tid : UInt64} {k : Nat} (h : Opening tid s)
    (hget : s.spawned[k]? = some .connect) :
    Opened cfg tid ((s.unspawn k).connect env.now).settle := by
  rcases h.opener hget rfl with ⟨_, hrest, _⟩
  unfold connect
  split
  . refine .inr (.inl ⟨h.requests, h.replies, ?_⟩)
    simp [Outcome.settle]
  . split
    . refine .inr (.inl ⟨h.requests, h.replies, ?_⟩)
      simp [Outcome.settle]
    . left
      have hkept : Kept { s.unspawn k with connecting := true }
          (enableTimer env.now {
            emit (.connect (s.unspawn k).srcPort) { s.unspawn k with connecting := true } with
            timeout := env.now + 5000 * 1000000
          }) := by
        apply Kept.trans _ kept_enableTimer
        apply Kept.trans (kept_emit (e := .connect (s.unspawn k).srcPort) rfl)
        apply kept_of_eq <;> rfl
      apply h.congr hkept.istats hkept.requests hkept.replies hkept.isInitialized hkept.satisfied
      exact .inr (.inl ⟨hkept.openers.trans hrest, hkept.connecting⟩)

theorem whenConnected_eq (u : InvocationSession) :
    whenConnected cfg env u
      =
    sendHttpRequest cfg.build env.now (if cfg.code ≠ [] then initPath else runPath)
      (if cfg.code ≠ [] then cfg.code else cfg.args) (cfg.code ≠ []) u := by
  unfold whenConnected
  by_cases hcode : cfg.code = [] <;> simp [hcode, initPath, runPath]

theorem opened_whenConnected {tid : UInt64} {u : InvocationSession}
    (transactionId : u.istats.transactionId = tid) (requests : u.requests = [])
    (replies : u.replies = []) (isInitialized : u.isInitialized = false)
    (initialized : u.satisfied .initialized = false) (executed : u.satisfied .executed = false)
    (openers : u.spawned.filter Spawned.opens = []) (connecting : u.connecting = false) :
    Opened cfg tid (cfg.promises.callback (whenConnected cfg env u)).settle := by
  rw [whenConnected_eq]
  cases sendHttpRequest_cases cfg.build env.now (if cfg.code ≠ [] then initPath else runPath)
    (if cfg.code ≠ [] then cfg.code else cfg.args) (cfg.code ≠ []) u with
  | inl hsend =>
    rw [hsend, callback_kassert]
    refine .inr (.inl ⟨requests, replies, ?_⟩)
    simp [Outcome.settle]
  | inr hsend =>
    rcases hsend with ⟨msg, t, hsend, hsent⟩
    rw [hsend]
    refine .inr (.inr ?_)
    have hrequests := requests_append hsent.effects
    have hreplies := replies_append hsent.effects
    constructor
    . exact (congrArg InvocationStats.transactionId hsent.istats).trans transactionId
    . exact (congrArg _ hsent.spawned).trans openers
    . exact hsent.connecting.trans connecting
    . rw [requests] at hrequests
      rw [replies] at hreplies
      unfold firstDue
      split
      . next hcode =>
        rw [if_pos hcode] at hrequests
        apply Phase.init hrequests hreplies (hsent.isInitialized.trans isInitialized)
        . exact (congrFun hsent.satisfied _).trans initialized
        . exact (congrFun hsent.satisfied _).trans executed
      . next hcode =>
        rw [if_neg hcode] at hrequests
        apply Phase.runOnly hrequests hreplies (hsent.isInitialized.trans isInitialized)
        exact (congrFun hsent.satisfied _).trans executed

theorem opened_setValue {tid : UInt64} {k : Nat} (h : Opening tid s)
    (hget : s.spawned[k]? = some (.setValue .connected)) :
    Opened cfg tid (setValue cfg.promises (handlers cfg) env .connected (s.unspawn k)).settle := by
  rcases h.opener hget rfl with ⟨_, hrest, hconnecting⟩
  have hsatisfied : (s.unspawn k).satisfied .connected = false :=
    h.satisfied _ (by decide) (by decide)
  rw [setValue_of_unsatisfied hsatisfied]
  apply opened_whenConnected
  . exact h.transactionId
  . rw [requests_append (s := s) (l := [.setValue .connected]) rfl, h.requests]
    rfl
  . rw [replies_append (s := s) (l := [.setValue .connected]) rfl, h.replies]
    rfl
  . exact h.isInitialized
  . exact h.satisfied .initialized (by decide) (by decide)
  . exact h.satisfied .executed (by decide) (by decide)
  . exact hrest
  . exact hconnecting

theorem opened_step {tid : UInt64} {e : SessionEvent} (h : Opened cfg tid s)
    (hreceive : ∀ b, e ≠ .receive b) (hstep : stepSession cfg s (env, e) = some t) :
    Opened cfg tid t := by
  rcases h with h | h | h
  . cases sessionStep_of_stepSession hstep with
    | connected hconnecting ht =>
      rw [ht]
      exact .inl (opening_connected h hconnecting)
    | receive b => exact absurd rfl (hreceive b)
    | opens k e hget hopens ht =>
      rw [ht]
      rcases (h.opener hget hopens).1 with rfl | rfl
      . exact opened_connect h hget
      . exact opened_setValue h hget
    | kept e _ hkept => exact .inl (h.kept hkept)
  . exact absurd (stepSession_eq_some.mp hstep).1 h.2.2
  . exact .inr (.inr (h.kept (kept_of_atDue h hreceive hstep)))

theorem opened_of_run {srcPort : UInt16} {istats : InvocationStats}
    {es : List (Env × SessionEvent)} (hrun : (sessionMachine cfg srcPort istats).run es = some s)
    (hreceived : received es = []) :
    Opened cfg istats.transactionId s := by
  revert hreceived
  refine Machine.run_induction (sessionMachine cfg srcPort istats)
    (P := fun es s => received es = [] → Opened cfg istats.transactionId s) ?_ ?_ hrun
  . intro _
    left
    constructor
    . rfl
    . rfl
    . rfl
    . rfl
    . intro sig _ _
      rfl
    . exact .inl ⟨rfl, rfl⟩
  . intro es s e t _ ih hstep hreceived
    rw [received, List.filterMap_append, List.append_eq_nil_iff] at hreceived
    apply opened_step (ih hreceived.1) _ hstep
    rintro b hb
    simp [hb] at hreceived

theorem atDue_of_run {srcPort : UInt16} {istats : InvocationStats} {es : List (Env × SessionEvent)}
    (hrun : (sessionMachine cfg srcPort istats).run es = some s) (hreceived : received es = [])
    (hsent : s.requests ≠ []) :
    AtDue istats.transactionId (firstDue cfg.code) 0 s := by
  rcases opened_of_run hrun hreceived with h | h | h
  . exact absurd h.requests hsent
  . exact absurd h.1 hsent
  . exact h

end opening

section run

variable {srcPort : UInt16} {istats : InvocationStats} {es : List (Env × SessionEvent)}

theorem received_cons_of_ne {e : SessionEvent} (h : ∀ b, e ≠ .receive b) :
    received ((env, e) :: es) = received es := by
  cases e with
  | receive b => exact absurd rfl (h b)
  | _ => rfl

theorem pairedRun_cons_receive {i : Nat} {b : MutIOBuf}
    (hstep : stepSession cfg s (env, .receive b) = some t) :
    PairedRun cfg i s ((env, .receive b) :: es)
      ↔
    Paired i b s t ∧ PairedRun cfg (i + 1) t es := by
  simp [PairedRun, hstep]

theorem pairedRun_cons_of_ne {i : Nat} {e : SessionEvent} (h : ∀ b, e ≠ .receive b)
    (hstep : stepSession cfg s (env, e) = some t) :
    PairedRun cfg i s ((env, e) :: es) ↔ PairedRun cfg i t es := by
  cases e with
  | receive b => exact absurd rfl (h b)
  | _ => simp [PairedRun, hstep]

theorem pairedRun_iff_of_atDue {tid : UInt64} {due : Due} {i : Nat} {u : InvocationSession}
    (h : AtDue tid due i s) (hrun : (sessionMachine cfg srcPort istats).runFrom s es = some u)
    (hok : ∀ b ∈ received es, IsOk b) :
    PairedRun cfg i s es ↔ InTurn due (received es) := by
  induction es generalizing due i s with
  | nil => simp [PairedRun, received, InTurn]
  | cons e es ih =>
    rw [Machine.runFrom_cons] at hrun
    rcases hrun with ⟨t, hstep, hrest⟩
    rcases e with ⟨env, e⟩
    by_cases hreceive : ∃ b, e = .receive b
    . rcases hreceive with ⟨b, rfl⟩
      have hreceived : received ((env, .receive b) :: es) = b :: received es := rfl
      rw [hreceived, List.forall_mem_cons] at hok
      have hhandled : Handled tid due i b s t := handled_of_step h hok.1 hstep
      rw [pairedRun_cons_receive hstep, hreceived, InTurn, hhandled.paired, and_congr_right_iff]
      intro hanswers
      cases hhandled.next hanswers.meets with
      | inl hstopped =>
        rw [runFrom_of_stopped hstopped.2.2 hrest]
        simp [PairedRun, received, InTurn]
      | inr hnext => exact ih hnext hrest hok.2
    . rw [not_exists] at hreceive
      rw [received_cons_of_ne hreceive] at hok ⊢
      rw [pairedRun_cons_of_ne hreceive hstep]
      exact ih (h.kept (kept_of_atDue h hreceive hstep)) hrest hok

/--
A session whose first request was sent before any response came pairs every response with the
request that it answers exactly when the bodies tell the responses apart and none is unasked for.
-/
theorem pairedRun_iff_inTurn {es₀ : List (Env × SessionEvent)} {u : InvocationSession}
    (hopen : (sessionMachine cfg srcPort istats).run es₀ = some s) (hquiet : received es₀ = [])
    (hsent : s.requests ≠ [])
    (hrun : (sessionMachine cfg srcPort istats).runFrom s es = some u)
    (hok : ∀ b ∈ received es, IsOk b) :
    PairedRun cfg 0 s es ↔ InTurn (firstDue cfg.code) (received es) := by
  exact pairedRun_iff_of_atDue (atDue_of_run hopen hquiet hsent) hrun hok

end run

def okResponse (body : CString) : MutIOBuf where
  data := "HTTP/1.1 200 OK\r\ncontent-type: application/json\r\n\r\n".toList ++ body
  isChained := false

theorem isOk_okResponse (body : CString) : IsOk (okResponse body) := by
  constructor <;> rfl

theorem coldSession_opened :
    ((sessionMachine (exampleConfig ⟨.throws, true⟩ "code".toList) 49160 exampleStats).run
      opening).isSome := by
  decide

theorem coldSession_run :
    ((sessionMachine (exampleConfig ⟨.throws, true⟩ "code".toList) 49160 exampleStats).runFrom
      (Option.get _ coldSession_opened) [
        (⟨4, false⟩, .receive (okResponse InvocationSession.initialized)),
        (⟨5, false⟩, .receive (okResponse "\x7b\"a\":1\x7d".toList)),
        (⟨6, false⟩, .close)
      ]).isSome := by
  decide

theorem pairedRun_iff_inTurn_cold :
    ∃ s, (sessionMachine (exampleConfig ⟨.throws, true⟩ "code".toList) 49160 exampleStats).run
        opening = some s
      ∧ PairedRun (exampleConfig ⟨.throws, true⟩ "code".toList) 0 s [
          (⟨4, false⟩, .receive (okResponse InvocationSession.initialized)),
          (⟨5, false⟩, .receive (okResponse "\x7b\"a\":1\x7d".toList)),
          (⟨6, false⟩, .close)
        ] := by
  have hopen := (Option.some_get coldSession_opened).symm
  have hrun := (Option.some_get coldSession_run).symm
  refine ⟨_, hopen, (pairedRun_iff_inTurn hopen rfl (by decide) hrun ?_).mpr ?_⟩
  . simp [received, isOk_okResponse]
  . exact ⟨.inl (by decide), ⟨by decide, by decide⟩, trivial⟩

theorem warmSession_opened :
    ((sessionMachine (exampleConfig ⟨.throws, true⟩ []) 49160 exampleStats).run opening).isSome := by
  decide

theorem warmSession_run :
    (stepSession (exampleConfig ⟨.throws, true⟩ []) (Option.get _ warmSession_opened)
      (⟨4, false⟩, .receive (okResponse InvocationSession.initialized))).isSome := by
  decide

-- A function whose result is `{"OK":true}` is run once more and its result is lost.
theorem ok_result_taken_for_initialization :
    ∃ s t,
      (sessionMachine (exampleConfig ⟨.throws, true⟩ []) 49160 exampleStats).run opening = some s
        ∧ stepSession (exampleConfig ⟨.throws, true⟩ []) s
            (⟨4, false⟩, .receive (okResponse InvocationSession.initialized)) = some t
        ∧ ¬ PairedRun (exampleConfig ⟨.throws, true⟩ []) 0 s
            [(⟨4, false⟩, .receive (okResponse InvocationSession.initialized))]
        ∧ t.requests = [runPath, runPath]
        ∧ t.replies = [] := by
  have hopen := (Option.some_get warmSession_opened).symm
  have hstep := (Option.some_get warmSession_run).symm
  refine ⟨_, _, hopen, hstep, ?_, by decide, by decide⟩
  intro hpaired
  have hinitialized := ((pairedRun_cons_receive hstep).mp hpaired).1.initialized (by decide)
  revert hinitialized
  decide

end Invoker
end Seuss
