import Seuss.Invoker.Posts
import Seuss.Wire.Basic

/-!
This module contains what one event does to a session that is in order: it waits on, or it replies
with the response to the arguments of its invocation, or it finishes, successfully just if it has
replied.
-/

namespace Seuss
namespace Wire

open Invoker InvocationSession

/--
The session belongs to the invocation, has got as far as it was answered, and has not ended.
-/
structure Serves (cfg : Config) (i : Invocation) (s : Session) : Prop where
  config : ∃ code, (code = [] ∨ code = i.code)
    ∧ s.config = sessionConfig cfg.stack.nativeBuild cfg.promises i code
  posts : Posts s.config i.info s.session
  waiting : s.session.whenFinished = none
  proceeds : ∃ es, (received es).length = s.received
    ∧ Proceeds s.config i.info.transactionId es s.session
  closing : Closing s.session → s.due = .nothing
  aborting : Aborting s.session → s.due ≠ .nothing

inductive Served (cfg : Config) (i : Invocation) (s : Session) (t : InvocationSession) :
    SessionEvent → Prop where
  | waits (e : SessionEvent) (hreplies : newReplies s.session t = [])
      (hstatus : t.whenFinished = none) (hserves : Serves cfg i (s.next e t))
      (hdue : (s.next e t).due = .nothing ↔ s.due = .nothing) :
      Served cfg i s t e
  | replies (b : MutIOBuf) (exec : ExecStats) (hok : IsOk b)
      (hposted : .send Invoker.runPath (httpPostRequest Invoker.runPath i.args false)
        ∈ s.session.effects)
      (hreplies : newReplies s.session t = [({ i.info with exec := exec }, bodyOf b.data)])
      (hstatus : t.whenFinished = none) (hserves : Serves cfg i (s.next (.receive b) t))
      (hdue : s.due ≠ .nothing) (hnothing : (s.next (.receive b) t).due = .nothing) :
      Served cfg i s t (.receive b)
  | ends (e : SessionEvent) (status : Bool) (hreplies : newReplies s.session t = [])
      (hstatus : t.whenFinished = some status) (hdue : status = true ↔ s.due = .nothing) :
      Served cfg i s t e

section new

variable {cfg : Config} {i : Invocation} {exec : ExecStats} {srcPort : UInt16} {code : CString}

theorem serves_new (hcode : code = [] ∨ code = i.code) :
    Serves cfg i {
      config := sessionConfig cfg.stack.nativeBuild cfg.promises i code
      session := .new srcPort { i.info with exec := exec }
      received := 0
    } where
  config := ⟨code, hcode, rfl⟩
  posts := posts_new _ _ _ _
  waiting := rfl
  proceeds := by
    have hopened := opened_of_run (Machine.runFrom_nil (sessionMachine
      (sessionConfig cfg.stack.nativeBuild cfg.promises i code) srcPort
      { i.info with exec := exec }) _) rfl
    exact ⟨[], rfl, .inl ⟨rfl, hopened⟩⟩
  closing := by
    intro hclosing
    simp [Closing, InvocationSession.new] at hclosing
  aborting _ := firstDue_ne_nothing

theorem serves_newSession (path : Deployment.StartPath) :
    Serves cfg i (newSession cfg i path srcPort)
      ∧ (newSession cfg i path srcPort).due ≠ .nothing := by
  have hdue : (newSession cfg i path srcPort).due
      = firstDue (newSession cfg i path srcPort).config.code := by
    cases path <;> rfl
  rw [hdue]
  refine ⟨?_, firstDue_ne_nothing⟩
  cases path with
  | hot => exact serves_new (.inl rfl)
  | warm => exact serves_new (.inl rfl)
  | cold => exact serves_new (.inr rfl)

end new

section step

variable {cfg : Config} {i : Invocation} {s : Session} {t : InvocationSession} {env : Env}
  {e : SessionEvent} {b : MutIOBuf}

theorem due_next (s : Session) (b : MutIOBuf) (t : InvocationSession) :
    (s.next (.receive b) t).due = s.due.next := by
  apply dueAfter_succ

theorem due_other (hreceive : ∀ b, e ≠ .receive b) : (s.next e t).due = s.due := by
  cases e with
  | receive b => exact absurd rfl (hreceive b)
  | _ => rfl

theorem replies_of_due_ne (h : Serves cfg i s) (hdue : s.due ≠ .nothing) :
    s.session.replies = [] := by
  rcases h.proceeds with ⟨es, hreceived, hproceeds⟩
  apply hproceeds.replies.2
  rw [hreceived]
  exact hdue

theorem atDue_of_due (h : Serves cfg i s) (hdue : s.due = .nothing) :
    AtDue i.info.transactionId .nothing s.received s.session := by
  rcases h.proceeds with ⟨es, hreceived, hproceeds⟩
  have hnothing : dueAfter s.config.code (received es).length = .nothing := by
    rw [hreceived]
    exact hdue
  rcases hproceeds with ⟨hnil, _⟩ | hatDue | hended
  . rw [hnil] at hnothing
    exact absurd hnothing firstDue_ne_nothing
  . rwa [hnothing, hreceived] at hatDue
  . exact absurd hnothing hended.1

theorem Serves.next (h : Serves cfg i s)
    (hstep : Invoker.stepSession s.config s.session (env, e) = some t)
    (hstatus : t.whenFinished = none)
    (hproceeds : ∃ es, (received es).length = s.received + receives e
      ∧ Proceeds s.config i.info.transactionId es t)
    (hclosing : Closing t → (s.next e t).due = .nothing)
    (haborting : Aborting t → (s.next e t).due ≠ .nothing) :
    Serves cfg i (s.next e t) where
  config := h.config
  posts := h.posts.step hstep
  waiting := hstatus
  proceeds := hproceeds
  closing := hclosing
  aborting := haborting

-- What a session does that was not answered.
theorem Serves.step_other (h : Serves cfg i s) (horder : s.InOrder e)
    (hreceive : ∀ b, e ≠ .receive b)
    (hstep : Invoker.stepSession s.config s.session (env, e) = some t) :
    Served cfg i s t e := by
  rcases h.proceeds with ⟨es, hreceived, hproceeds⟩
  have hother := hproceeds.other hreceive hstep
  have hsame : (received (es ++ [(env, e)])).length = s.received := by
    rw [received_append, received_cons_of_ne hreceive, ← hreceived]
    simp [received]
  have hnone : receives e = 0 := by
    cases e with
    | receive b => exact absurd rfl (hreceive b)
    | _ => rfl
  have hreplies : newReplies s.session t = [] := by
    unfold newReplies
    by_cases hdue : s.due = .nothing
    . have hkept := kept_of_atDue (atDue_of_due h hdue) hreceive hstep
      rw [hkept.replies, List.drop_length]
    . have hnil : t.replies = [] := by
        apply hother.replies.2
        rw [hsame]
        exact hdue
      rw [hnil, List.drop_nil]
  have hends := endStep_of_stepSession hstep
  have hclosing : Closing t → s.due = .nothing := by
    intro hclosing
    cases hends.closing hclosing with
    | inl hclosing => exact h.closing hclosing
    | inr hclose =>
      subst hclose
      exact horder
  have haborting : Aborting t → s.due ≠ .nothing := by
    intro haborting
    rcases hends.aborting haborting with haborting | rfl | rfl | ⟨b, hb, _⟩
    . exact h.aborting haborting
    . exact horder
    . exact horder
    . exact absurd hb (hreceive b)
  cases hstatus : t.whenFinished with
  | none =>
    refine .waits e hreplies hstatus ?_ (by rw [due_other hreceive])
    apply h.next hstep hstatus
    . exact ⟨_, by rw [hsame, hnone]; rfl, hother⟩
    . rwa [due_other hreceive]
    . rwa [due_other hreceive]
  | some status =>
    apply Served.ends e status hreplies hstatus
    cases status with
    | true => exact iff_of_true rfl (hclosing (.inl hstatus))
    | false => exact iff_of_false Bool.false_ne_true (haborting (.inl hstatus))

theorem whenFinished_of_receive (hok : IsOk b)
    (hstep : Invoker.stepSession s.config s.session (env, .receive b) = some t) :
    t.whenFinished = s.session.whenFinished := by
  cases happens_of_stepSession hstep with
  | rejected _ hquiet => exact hquiet.whenFinished
  | received _ response _ _ _ hquiet =>
    rw [hquiet.whenFinished]
    unfold InvocationSession.answered
    split <;> rfl
  | failed _ _ _ _ _ hstatus => exact absurd hok.status hstatus

-- What is due while an answer is missing.
theorem due_of_asked (h : Serves cfg i s) (hasked : s.received < s.session.requests.length) :
    s.due ≠ .nothing := by
  intro hdue
  cases (atDue_of_due h hdue).phase with
  | nothing _ requests => omega

theorem posted_of_request {cfg : SessionConfig} {info : InvocationStats} {s : InvocationSession}
    {k : Nat} (h : Posts cfg info s) (hrequest : s.requests[k]? = some Invoker.runPath) :
    .send Invoker.runPath (httpPostRequest Invoker.runPath cfg.args false) ∈ s.effects := by
  have hmem := List.mem_of_getElem? hrequest
  rw [requests, List.mem_filterMap] at hmem
  rcases hmem with ⟨effect, hmem, hpath⟩
  cases effect with
  | send path msg =>
    cases hpath
    rcases h.sent _ _ hmem with ⟨hinit, _⟩ | ⟨_, hmsg⟩
    . exact absurd hinit (by decide)
    . rwa [← hmsg]
  | _ => cases hpath

theorem request_of_phase {tid : UInt64} {due : Due} {k : Nat} {s : InvocationSession}
    (h : Phase tid s due k) (hdue : due ≠ .nothing) (hlast : due.next = .nothing) :
    s.requests[k]? = some Invoker.runPath := by
  cases h with
  | init => cases hlast
  | runOnly requests =>
    rw [requests]
    rfl
  | run requests =>
    rw [requests]
    rfl
  | nothing => exact absurd rfl hdue

-- The response to the last request is the only reply that the session has sent then.
theorem Serves.reply_of_last (h : Serves cfg i s)
    (hstep : Invoker.stepSession s.config s.session (env, .receive b) = some t)
    (horder : s.InOrder (.receive b)) (hlast : s.due.next = .nothing)
    (hone : t.replies.map (·.1.transactionId) = [i.info.transactionId]) :
    .send Invoker.runPath (httpPostRequest Invoker.runPath i.args false) ∈ s.session.effects
      ∧ ∃ exec, t.replies = [({ i.info with exec := exec }, bodyOf b.data)] := by
  rcases horder with ⟨hok, hasked, hanswers, _⟩
  rcases h.proceeds with ⟨es, hreceived, hproceeds⟩
  have hrequests : s.session.requests ≠ [] := by
    rw [← List.length_pos_iff]
    omega
  have hatDue := hproceeds.atDue (stepSession_eq_some.mp hstep).1 hrequests
  rw [hreceived] at hatDue
  have hrun := request_of_phase hatDue.phase (due_of_asked h hasked) hlast
  have hpaired := (handled_of_step hatDue hok hstep).paired.mpr hanswers
  rcases (hpaired.reply hrun).2 with ⟨istats, hresolve⟩
  have hmem : .resolve istats (bodyOf b.data) ∈ t.effects := List.mem_of_mem_drop hresolve
  have hreply : (istats, bodyOf b.data) ∈ t.replies := List.mem_filterMap.mpr ⟨_, hmem, rfl⟩
  rw [List.map_eq_singleton_iff] at hone
  rcases hone with ⟨r, hr, _⟩
  rw [hr, List.mem_singleton] at hreply
  rcases (h.posts.step hstep).resolved istats _ hmem with ⟨exec, hexec⟩
  rcases h.config with ⟨code, _, hconfig⟩
  have hposted := posted_of_request h.posts hrun
  rw [hconfig] at hposted
  refine ⟨hposted, exec, ?_⟩
  rw [hr, ← hreply, hexec]

theorem Serves.step_receive (h : Serves cfg i s) (horder : s.InOrder (.receive b))
    (hstep : Invoker.stepSession s.config s.session (env, .receive b) = some t) :
    Served cfg i s t (.receive b) := by
  have hreply := h.reply_of_last hstep horder
  rcases horder with ⟨hok, hasked, hanswers, hlast⟩
  rcases h.proceeds with ⟨es, hreceived, hproceeds⟩
  have hdue := due_of_asked h hasked
  have hstatus : t.whenFinished = none := (whenFinished_of_receive hok hstep).trans h.waiting
  have hlength : (received (es ++ [(env, .receive b)])).length = s.received + 1 := by
    rw [← hreceived]
    simp [received]
  rw [← hreceived] at hasked
  have hanswers' : (dueAfter s.config.code (received es).length).Answers b := by
    rwa [hreceived]
  have hnext := hproceeds.receive hok hasked hanswers'.meets hstep
  have htaken := hnext.replies
  rw [hlength, dueAfter_succ] at htaken
  have hends := endStep_of_stepSession hstep
  have hserves : Serves cfg i (s.next (.receive b) t) := by
    refine h.next hstep hstatus ⟨_, hlength, hnext⟩ ?_ ?_
    . intro hclosing
      rcases hends.closing hclosing with hclosing | hclose
      . exact absurd (h.closing hclosing) hdue
      . cases hclose
    . intro haborting
      rw [due_next]
      rcases hends.aborting haborting with haborting | he | he | ⟨b', hb, hbad⟩
      . exact hlast haborting
      . cases he
      . cases he
      . cases hb
        exact absurd hok.status hbad
  have hnew : newReplies s.session t = t.replies := by
    rw [newReplies, replies_of_due_ne h hdue]
    rfl
  by_cases hnothing : s.due.next = .nothing
  . rcases hreply hnothing (htaken.1 hnothing) with ⟨hposted, exec, hreplies⟩
    rw [← hnew] at hreplies
    exact .replies b exec hok hposted hreplies hstatus hserves hdue ((due_next s b t).trans hnothing)
  . apply Served.waits _ _ hstatus hserves
    . rw [due_next]
      exact iff_of_false hnothing hdue
    . rw [hnew]
      exact htaken.2 hnothing

theorem Serves.step (h : Serves cfg i s) (horder : s.InOrder e)
    (hstep : Invoker.stepSession s.config s.session (env, e) = some t) :
    Served cfg i s t e := by
  by_cases hreceive : ∃ b, e = .receive b
  . rcases hreceive with ⟨b, rfl⟩
    exact h.step_receive horder hstep
  . rw [not_exists] at hreceive
    exact h.step_other horder hreceive hstep

end step

end Wire
end Seuss
