import Seuss.Invoker.Pairing
import Seuss.Invoker.SingleEnd

/-!
This module contains what becomes of a response that the network delivers in one or more pieces,
each of them one call of `Receive`.
-/

namespace Seuss

namespace InvocationSession

variable {s t u : InvocationSession}

theorem responseOf_append {a : CString} (b : CString) (h : '{' ∉ a) :
    responseOf (a ++ '{' :: b) = some ('{' :: b) := by
  unfold responseOf
  rw [CString.findFirstOf_append _ b h]
  exact CString.substr_append a ('{' :: b)

theorem eq_append_of_responseOf {data response : CString} (h : responseOf data = some response) :
    ∃ a, data = a ++ response ∧ '{' ∉ a ∧ response.head? = some '{' := by
  unfold responseOf at h
  split at h
  . cases h
  . next pos hpos =>
    rcases CString.eq_append_of_findFirstOf hpos with ⟨a, b, rfl, hnot, rfl⟩
    rw [CString.substr_append, Option.some.injEq] at h
    subst h
    exact ⟨a, rfl, hnot, rfl⟩

theorem httpStatusOf_append {a : CString} (b : CString) (h : '\r' ∉ a) :
    httpStatusOf (a ++ '\r' :: b) = a := by
  unfold httpStatusOf
  rw [CString.findFirstOf_append _ b h, CString.substr_zero]
  rfl

theorem Ending.signals {sig : Signal} {status : Bool} (h : Ending sig status s t) :
    t.signals = s.signals ++ [sig] := by
  cases h with
  | again _ hquiet => rw [hquiet.sameTally.signals, signals_mark]
  | finished kept _ hquiet =>
    rw [hquiet.sameTally.signals, (sameTally_ended status kept (mark sig s)).1, signals_mark]

theorem signals_answered (response : CString) (s : InvocationSession) :
    ∃ sig, (answered response s).signals = s.signals ++ [sig] := by
  unfold answered
  split
  . exact ⟨.initialized, signals_mark⟩
  . exact ⟨.executed, signals_mark⟩

end InvocationSession

namespace Invoker

open InvocationSession

variable {cfg : SessionConfig} {s t : InvocationSession} {env : Env} {b : MutIOBuf}

theorem response_of_running
    (h : (s.receive cfg.promises (handlers cfg) env b).settle.stopped = none) :
    b.isChained = false ∧ ∃ response, responseOf b.data = some response := by
  unfold receive at h
  split at h
  . cases h
  . next hchained =>
    split at h
    . cases h
    . next response hresponse => exact ⟨by simpa using hchained, response, hresponse⟩

theorem receive_cases (cfg : SessionConfig) (env : Env) (s : InvocationSession) {b : MutIOBuf}
    {response : CString} (hchained : b.isChained = false)
    (hresponse : responseOf b.data = some response) :
    (httpStatusOf b.data = httpOk
        ∧ Quiet (answered response s) (s.receive cfg.promises (handlers cfg) env b).settle)
      ∨ (httpStatusOf b.data ≠ httpOk
        ∧ ∃ sigs, (s.receive cfg.promises (handlers cfg) env b).settle.signals
            = s.signals ++ .aborted :: sigs) := by
  by_cases hstatus : httpStatusOf b.data = httpOk
  . rw [receive_of_isOk ⟨hchained, hstatus⟩ hresponse]
    exact .inl ⟨hstatus, quiet_receiveResponse⟩
  . refine .inr ⟨hstatus, ?_⟩
    have hfailure := ending_receiveFailure cfg env response s
    simp only [receive, hchained, hresponse, hstatus, ne_eq, not_false_eq_true, ↓reduceIte,
      Bool.false_eq_true]
    cases hfailed : receiveFailure cfg.promises (handlers cfg) env response s with
    | done u =>
      rw [hfailed] at hfailure
      have hquiet : Quiet (answered response u)
          (receiveResponse cfg.promises (handlers cfg) env response u).settle :=
        quiet_receiveResponse
      rcases signals_answered response u with ⟨sig, hsig⟩
      have hu : u.signals = s.signals ++ [.aborted] := hfailure.signals
      refine ⟨[sig], ?_⟩
      rw [Outcome.andThen, hquiet.sameTally.signals, hsig, hu, List.append_assoc]
      rfl
    | threw stop u =>
      rw [hfailed] at hfailure
      exact ⟨[], hfailure.signals⟩

def deliver (pieces : List (Env × MutIOBuf)) : List (Env × SessionEvent) :=
  pieces.map fun p => (p.1, .receive p.2)

/--
The session takes what was delivered for one response with the body `b`: it signals that once, after
the last piece, and nothing else.
-/
structure TakenAsOne (cfg : SessionConfig) (srcPort : UInt16) (istats : InvocationStats)
    (s : InvocationSession) (pieces : List (Env × MutIOBuf)) (b : CString) : Prop where
  taken : ∃ t, (sessionMachine cfg srcPort istats).runFrom s (deliver pieces) = some t
    ∧ t.stopped = none
    ∧ t.signals = s.signals ++ [.executed]
    ∧ t.reply = b
  afterLast : ∀ earlier t, earlier <+: pieces → earlier ≠ pieces →
    (sessionMachine cfg srcPort istats).runFrom s (deliver earlier) = some t →
    t.signals = s.signals

def statusCode : CString := "HTTP/1.1 200 ".toList

-- what comes before the body, with the given reason phrase and header fields
def okHead (reason headers : CString) : CString :=
  statusCode ++ reason ++ '\r' :: '\n' :: (headers ++ ['\r', '\n'])

theorem not_mem_statusCode : '\r' ∉ statusCode ∧ '{' ∉ statusCode := by
  decide

theorem statusCode_append_eq_httpOk {reason : CString} :
    statusCode ++ reason = httpOk ↔ reason = ['O', 'K'] := by
  have hok : httpOk = statusCode ++ ['O', 'K'] := by
    decide
  rw [hok, List.append_cancel_left_eq]

theorem httpStatusOf_okHead {reason : CString} (headers b : CString) (h : '\r' ∉ reason) :
    httpStatusOf (okHead reason headers ++ b) = statusCode ++ reason := by
  have hline : '\r' ∉ statusCode ++ reason := by
    rw [List.mem_append, not_or]
    exact ⟨not_mem_statusCode.1, h⟩
  rw [okHead, List.append_assoc]
  exact httpStatusOf_append _ hline

theorem mem_okHead_iff {headers : CString} :
    '{' ∈ okHead ['O', 'K'] headers ↔ '{' ∈ headers := by
  simp [okHead, not_mem_statusCode.2]

section taken

variable {srcPort : UInt16} {istats : InvocationStats} {pieces : List (Env × MutIOBuf)}
  {reason headers body : CString}

theorem stepSession_receive_eq (h : s.stopped = none) :
    stepSession cfg s (env, .receive b)
      =
    some (s.receive cfg.promises (handlers cfg) env b).settle := by
  simp [stepSession, h, runSessionEvent]

-- A call that does not throw signals something.
theorem signals_receive_ne (h : (s.receive cfg.promises (handlers cfg) env b).settle.stopped = none) :
    (s.receive cfg.promises (handlers cfg) env b).settle.signals ≠ s.signals := by
  rcases response_of_running h with ⟨hchained, response, hresponse⟩
  rcases receive_cases cfg env s hchained hresponse with ⟨_, hquiet⟩ | ⟨_, sigs, hsigs⟩
  . rcases signals_answered response s with ⟨sig, hsig⟩
    rw [hquiet.sameTally.signals, hsig]
    simp
  . rw [hsigs]
    simp

theorem TakenAsOne.one_piece (h : TakenAsOne cfg srcPort istats s pieces body)
    (hstopped : s.stopped = none) :
    ∃ env b, pieces = [(env, b)] := by
  rcases h.taken with ⟨t, hrun, _, hsignals, _⟩
  cases pieces with
  | nil =>
    cases hrun
    simp at hsignals
  | cons p rest =>
    rcases p with ⟨env, b⟩
    cases rest with
    | nil => exact ⟨env, b, rfl⟩
    | cons q rest =>
      -- the state after the first piece, from which the second one is delivered
      rw [deliver, List.map_cons, Machine.runFrom_cons] at hrun
      rcases hrun with ⟨u, hfirst, hrest⟩
      rw [List.map_cons, Machine.runFrom_cons] at hrest
      rcases hrest with ⟨v, hsecond, _⟩
      have hu : (s.receive cfg.promises (handlers cfg) env b).settle = u := by
        rw [sessionMachine] at hfirst
        exact Option.some.inj ((stepSession_receive_eq hstopped).symm.trans hfirst)
      have hrunning : u.stopped = none := (stepSession_eq_some.mp hsecond).1
      have hsame : u.signals = s.signals := by
        refine h.afterLast [(env, b)] u ?_ (by simp) ?_
        . simp
        . exact (Machine.runFrom_singleton _).mpr hfirst
      subst hu
      exact absurd hsame (signals_receive_ne hrunning)

theorem stopped_of_receiveResponse {response : CString}
    (hresponse : s.isInitialized = true ∨ response ≠ initialized)
    (hexecuted : s.satisfied .executed = false) :
    (receiveResponse cfg.promises (handlers cfg) env response s).settle.stopped = s.stopped := by
  rw [receiveResponse_of_executed hresponse, setValue_of_unsatisfied]
  . rfl
  . exact hexecuted

theorem ExecutedStep.signals {response : CString} (h : ExecutedStep response s t) :
    t.signals = s.signals ++ [.executed] := by
  simp [InvocationSession.signals, h.effects, Effect.signal?]

theorem response_of_taken {response : CString} (hchained : b.isChained = false)
    (hresponse : responseOf b.data = some response) (hexecuted : s.satisfied .executed = false)
    (ht : (s.receive cfg.promises (handlers cfg) env b).settle = t)
    (hsignals : t.signals = s.signals ++ [.executed]) :
    httpStatusOf b.data = httpOk ∧ (s.isInitialized = true ∨ response ≠ initialized)
      ∧ t.reply = response := by
  subst ht
  rcases receive_cases cfg env s hchained hresponse with ⟨hstatus, hquiet⟩ | ⟨_, sigs, hsigs⟩
  . have hresult : s.isInitialized = true ∨ response ≠ initialized := by
      by_contra hinit
      rw [not_or, Bool.not_eq_true, not_not] at hinit
      rw [hquiet.sameTally.signals, answered, if_pos (by simp [hinit]), signals_mark] at hsignals
      have hsame := List.append_cancel_left hsignals
      cases hsame
    refine ⟨hstatus, hresult, ?_⟩
    rw [receive_of_isOk ⟨hchained, hstatus⟩ hresponse]
    exact (executedStep_of_receiveResponse hresult hexecuted).reply
  . rw [hsigs] at hsignals
    have hsame := List.append_cancel_left hsignals
    cases hsame

theorem receive_of_whole (hheaders : '{' ∉ headers) (hhead : body.head? = some '{') :
    s.receive cfg.promises (handlers cfg) env ⟨okHead ['O', 'K'] headers ++ body, false⟩
      =
    receiveResponse cfg.promises (handlers cfg) env body s := by
  rcases List.head?_eq_some_iff.mp hhead with ⟨rest, rfl⟩
  refine receive_of_isOk ⟨rfl, ?_⟩ ?_
  . rw [httpStatusOf_okHead _ _ (by decide), statusCode_append_eq_httpOk]
  . refine responseOf_append rest ?_
    rw [mem_okHead_iff]
    exact hheaders

theorem takenAsOne_of_whole (hheaders : '{' ∉ headers) (hhead : body.head? = some '{')
    (hstopped : s.stopped = none) (hexecuted : s.satisfied .executed = false)
    (hinit : s.isInitialized = true ∨ body ≠ initialized) :
    TakenAsOne cfg srcPort istats s [(env, ⟨okHead ['O', 'K'] headers ++ body, false⟩)] body := by
  have hstep : ExecutedStep body s
      (receiveResponse cfg.promises (handlers cfg) env body s).settle :=
    executedStep_of_receiveResponse hinit hexecuted
  refine ⟨⟨(receiveResponse cfg.promises (handlers cfg) env body s).settle, ?_, ?_, ?_, ?_⟩, ?_⟩
  . refine (Machine.runFrom_singleton _).mpr ?_
    rw [← receive_of_whole hheaders hhead]
    exact stepSession_receive_eq hstopped
  . rw [stopped_of_receiveResponse hinit hexecuted]
    exact hstopped
  . exact hstep.signals
  . exact hstep.reply
  . intro earlier t hprefix hne hrun
    rcases List.prefix_cons_iff.mp hprefix with rfl | ⟨l, rfl, hl⟩
    . cases hrun
      rfl
    . rw [List.prefix_nil] at hl
      subst hl
      exact absurd rfl hne

/--
A response is taken as one just where it is delivered whole, with the reason phrase `OK`, no brace in
its head and one at the front of its body, and is not the answer to `/init`.
-/
theorem takenAsOne_iff (reason headers : CString) (hreason : '\r' ∉ reason)
    (hpieces : (pieces.map fun p => p.2.data).flatten = okHead reason headers ++ body)
    (hstopped : s.stopped = none) (hexecuted : s.satisfied .executed = false) :
    TakenAsOne cfg srcPort istats s pieces body
      ↔
    reason = ['O', 'K'] ∧ '{' ∉ headers ∧ body.head? = some '{'
      ∧ (s.isInitialized = true ∨ body ≠ initialized)
      ∧ ∃ env, pieces = [(env, ⟨okHead reason headers ++ body, false⟩)] := by
  constructor
  . intro h
    rcases h.one_piece hstopped with ⟨env, b, rfl⟩
    rcases h.taken with ⟨t, hrun, hrunning, hsignals, hreply⟩
    have ht : (s.receive cfg.promises (handlers cfg) env b).settle = t := by
      have hstep := (Machine.runFrom_singleton _).mp hrun
      exact Option.some.inj ((stepSession_receive_eq hstopped).symm.trans hstep)
    have hdata : b.data = okHead reason headers ++ body := by
      simpa using hpieces
    rw [← ht] at hrunning
    rcases response_of_running hrunning with ⟨hchained, response, hresponse⟩
    rcases response_of_taken hchained hresponse hexecuted ht hsignals with
      ⟨hstatus, hresult, hsame⟩
    rw [hdata, httpStatusOf_okHead _ _ hreason, statusCode_append_eq_httpOk] at hstatus
    rw [hsame] at hreply
    subst hreply
    rcases eq_append_of_responseOf hresponse with ⟨a, ha, hnot, hhead⟩
    rw [hdata] at ha
    have hhead' := List.append_cancel_right ha
    rw [← hhead', hstatus, mem_okHead_iff] at hnot
    refine ⟨hstatus, hnot, hhead, hresult, env, ?_⟩
    rw [← hdata, ← hchained]
  . rintro ⟨rfl, hheaders, hhead, hinit, env, rfl⟩
    exact takenAsOne_of_whole hheaders hhead hstopped hexecuted hinit

end taken

section split

def emptyResult : CString := ['{', '}']

def wholeResponse : List (Env × MutIOBuf) :=
  [(⟨4, false⟩, ⟨okHead ['O', 'K'] [] ++ emptyResult, false⟩)]

-- The first piece ends with the blank line.
def splitResponse : List (Env × MutIOBuf) :=
  [(⟨4, false⟩, ⟨okHead ['O', 'K'] [], false⟩), (⟨5, false⟩, ⟨emptyResult, false⟩)]

theorem awaiting_run :
    ((sessionMachine (exampleConfig ⟨.throws, true⟩ []) 49160 exampleStats).run opening).isSome := by
  decide

theorem takenAsOne_iff_whole :
    ∃ s, (sessionMachine (exampleConfig ⟨.throws, true⟩ []) 49160 exampleStats).run opening = some s
      ∧ TakenAsOne (exampleConfig ⟨.throws, true⟩ []) 49160 exampleStats s wholeResponse
          emptyResult := by
  refine ⟨_, (Option.some_get awaiting_run).symm, ?_⟩
  refine (takenAsOne_iff ['O', 'K'] [] ?_ rfl ?_ ?_).mpr ?_
  . decide
  . decide
  . decide
  . exact ⟨rfl, by decide, rfl, .inr (by decide), _, rfl⟩

theorem splitResponse_not_takenAsOne :
    ∃ s, (sessionMachine (exampleConfig ⟨.throws, true⟩ []) 49160 exampleStats).run opening = some s
      ∧ (splitResponse.map fun p => p.2.data).flatten = okHead ['O', 'K'] [] ++ emptyResult
      ∧ s.requests = [runPath]
      ∧ ¬ TakenAsOne (exampleConfig ⟨.throws, true⟩ []) 49160 exampleStats s splitResponse
          emptyResult := by
  refine ⟨_, (Option.some_get awaiting_run).symm, rfl, by decide, ?_⟩
  intro h
  rcases h.one_piece (by decide) with ⟨env, b, hpieces⟩
  cases hpieces

end split

end Invoker
end Seuss
