import Seuss.Invoker.Pairing
import Seuss.Invoker.SessionEvents

/-!
This module contains what a session says about its invocation: the requests that it posts to the
instance are made of the code and the arguments of the invocation, and what it replies keeps its
statistics.
-/

namespace Seuss
namespace Invoker

open InvocationSession

-- `/init` takes the code where there is some, `/run` the arguments.
def SessionConfig.Asks (cfg : SessionConfig) (path msg : CString) : Prop :=
  path = initPath ∧ cfg.code ≠ [] ∧ msg = httpPostRequest initPath cfg.code true
    ∨ path = runPath ∧ msg = httpPostRequest runPath cfg.args false

structure Posts (cfg : SessionConfig) (info : InvocationStats) (s : InvocationSession) : Prop where
  istats : ∃ exec, s.istats = { info with exec := exec }
  sent : ∀ path msg, .send path msg ∈ s.effects → cfg.Asks path msg
  resolved : ∀ istats ret, .resolve istats ret ∈ s.effects →
    ∃ exec, istats = { info with exec := exec }

section posts

variable {cfg : SessionConfig} {info : InvocationStats} {s t : InvocationSession} {env : Env}
  {e : SessionEvent}

theorem posts_new (cfg : SessionConfig) (srcPort : UInt16) (info : InvocationStats)
    (exec : ExecStats) :
    Posts cfg info (.new srcPort { info with exec := exec }) where
  istats := ⟨exec, rfl⟩
  sent _ _ h := nomatch h
  resolved _ _ h := nomatch h

theorem Posts.congr (h : Posts cfg info s) (effects : t.effects = s.effects)
    (istats : ∃ exec, t.istats = { s.istats with exec := exec }) : Posts cfg info t where
  istats := by
    rcases h.istats with ⟨_, hs⟩
    rcases istats with ⟨exec, ht⟩
    rw [hs] at ht
    exact ⟨exec, ht⟩
  sent := by
    rw [effects]
    exact h.sent
  resolved := by
    rw [effects]
    exact h.resolved

theorem Posts.kept (h : Posts cfg info s) (hkept : Kept s t) : Posts cfg info t := by
  rcases hkept.effects with ⟨l, hl⟩
  have hrequests : l.filterMap Effect.path? = [] := by
    have hsame := hkept.requests
    rw [requests, requests, ← hl, List.filterMap_append] at hsame
    exact List.append_right_eq_self.mp hsame
  have hreplies : l.filterMap Effect.reply? = [] := by
    have hsame := hkept.replies
    rw [replies, replies, ← hl, List.filterMap_append] at hsame
    exact List.append_right_eq_self.mp hsame
  constructor
  . rw [hkept.istats]
    exact h.istats
  . intro path msg hmem
    rw [← hl, List.mem_append] at hmem
    rcases hmem with hmem | hmem
    . exact h.sent path msg hmem
    . cases List.filterMap_eq_nil_iff.mp hrequests _ hmem
  . intro istats ret hmem
    rw [← hl, List.mem_append] at hmem
    rcases hmem with hmem | hmem
    . exact h.resolved istats ret hmem
    . cases List.filterMap_eq_nil_iff.mp hreplies _ hmem

theorem Posts.emit_setValue (h : Posts cfg info s) (sig : Signal) :
    Posts cfg info (emit (.setValue sig) s) :=
  h.kept (kept_emit rfl)

theorem Posts.sendHttpRequest {path payload : CString} {keepAlive : Bool} (h : Posts cfg info s)
    (hasks : cfg.Asks path (httpPostRequest path payload keepAlive)) :
    Posts cfg info (sendHttpRequest cfg.build env.now path payload keepAlive s).settle := by
  unfold InvocationSession.sendHttpRequest
  split
  . exact h.congr rfl ⟨_, rfl⟩
  . dsimp only [Outcome.settle]
    have hstart : Posts cfg info (recordStart env.now path
        { s with previousRequest := httpPostRequest path payload keepAlive }) := by
      unfold recordStart
      split
      . exact h.congr rfl ⟨_, rfl⟩
      . split <;> exact h.congr rfl ⟨_, rfl⟩
    constructor
    . exact hstart.istats
    . intro path' msg hmem
      rw [emit, List.mem_append, List.mem_singleton] at hmem
      rcases hmem with hmem | hmem
      . exact hstart.sent path' msg hmem
      . cases hmem
        exact hasks
    . intro istats ret hmem
      rw [emit, List.mem_append, List.mem_singleton] at hmem
      rcases hmem with hmem | hmem
      . exact hstart.resolved istats ret hmem
      . cases hmem

theorem Posts.handlers (h : Posts cfg info s) (sig : Signal) :
    Posts cfg info (Invoker.handlers cfg env sig s).settle := by
  cases sig with
  | aborted => exact h.kept kept_whenAborted
  | closed => exact h.kept kept_whenClosed
  | connected =>
    simp only [Invoker.handlers, whenConnected]
    split
    . next hcode => exact h.sendHttpRequest (.inl ⟨rfl, hcode, rfl⟩)
    . exact h.sendHttpRequest (.inr ⟨rfl, rfl⟩)
  | initialized =>
    simp only [Invoker.handlers, whenInitialized]
    apply Posts.sendHttpRequest _ (.inr ⟨rfl, rfl⟩)
    exact h.congr rfl ⟨_, rfl⟩
  | executed =>
    simp only [Invoker.handlers, whenExecuted, Outcome.settle]
    rcases h.istats with ⟨exec, histats⟩
    have hstats : ∃ exec, ({ s.istats with
        exec.status := false, exec.runTime := s.getRuntime env.now } : InvocationStats)
          = { info with exec := exec } := ⟨_, by rw [histats]⟩
    constructor
    . exact hstats
    . intro path msg hmem
      rw [emit, List.mem_append, List.mem_singleton] at hmem
      rcases hmem with hmem | hmem
      . exact h.sent path msg hmem
      . cases hmem
    . intro istats ret hmem
      rw [emit, List.mem_append, List.mem_singleton] at hmem
      rcases hmem with hmem | hmem
      . exact h.resolved istats ret hmem
      . cases hmem
        exact hstats

theorem Posts.setValue (h : Posts cfg info s) (sig : Signal) :
    Posts cfg info (setValue cfg.promises (Invoker.handlers cfg) env sig s).settle := by
  have hmark : Posts cfg info (mark sig s) := (h.emit_setValue sig).congr rfl ⟨_, rfl⟩
  have hcases := setValue_cases cfg.promises (Invoker.handlers cfg) env sig s
  rcases hcases with hrun | ⟨_, hthrew | hdone⟩
  . have hcallback := settle_callback cfg.promises (Invoker.handlers cfg env sig (mark sig s))
    rcases hcallback with ⟨stopped, hsettle⟩
    rw [hrun, hsettle]
    exact (hmark.handlers sig).congr rfl ⟨_, rfl⟩
  . rw [hthrew]
    exact hmark.congr rfl ⟨_, rfl⟩
  . rw [hdone]
    exact hmark

theorem Posts.receiveResponse (h : Posts cfg info s) (response : CString) :
    Posts cfg info (receiveResponse cfg.promises (Invoker.handlers cfg) env response s).settle := by
  unfold InvocationSession.receiveResponse
  split
  . apply Posts.setValue
    exact h.congr rfl ⟨_, rfl⟩
  . apply Posts.setValue
    exact h.congr rfl ⟨_, rfl⟩

theorem Posts.andThen {o : Outcome} {f : InvocationSession → Outcome} (h : Posts cfg info o.settle)
    (hf : ∀ u, Posts cfg info u → Posts cfg info (f u).settle) :
    Posts cfg info (o.andThen f).settle := by
  cases o with
  | done u => exact hf u h
  | threw stop u => exact h

theorem Posts.receive (h : Posts cfg info s) (b : MutIOBuf) :
    Posts cfg info (receive cfg.promises (Invoker.handlers cfg) env b s).settle := by
  unfold InvocationSession.receive
  split
  . exact h.congr rfl ⟨_, rfl⟩
  . split
    . exact h.congr rfl ⟨_, rfl⟩
    . next response _ =>
      split
      . refine Posts.andThen (Posts.andThen ?_ ?_) ?_
        . apply Posts.setValue
          exact h.congr rfl ⟨_, rfl⟩
        . intro u hu
          exact hu.kept (kept_emit rfl)
        . intro u hu
          exact hu.receiveResponse response
      . exact h.receiveResponse response

theorem Posts.runSpawned (h : Posts cfg info s) (e : Spawned) :
    Posts cfg info (Invoker.runSpawned cfg env e s).settle := by
  cases e with
  | connect =>
    simp only [Invoker.runSpawned, connect]
    split
    . exact h.congr rfl ⟨_, rfl⟩
    . split
      . exact h.congr rfl ⟨_, rfl⟩
      . apply Posts.kept _ kept_enableTimer
        have hemit := h.kept (kept_emit (e := .connect s.srcPort) rfl)
        exact hemit.congr rfl ⟨_, rfl⟩
  | setValue sig => exact h.setValue sig
  | signalHalt => exact h.kept (kept_emit rfl)

theorem Posts.step (h : Posts cfg info s) (hstep : stepSession cfg s (env, e) = some t) :
    Posts cfg info t := by
  cases sessionStep_of_stepSession hstep with
  | connected hconnecting ht =>
    rw [ht, connected]
    have hupdated : Posts cfg info { s with isConnected := true, connecting := false } :=
      h.congr rfl ⟨_, rfl⟩
    have hdisabled := hupdated.kept kept_disableTimer
    have htimeout : Posts cfg info {
        disableTimer { s with isConnected := true, connecting := false } with
        timeout := env.now + 60 * 1000000000
      } := hdisabled.congr rfl ⟨_, rfl⟩
    exact (htimeout.kept kept_enableTimer).congr rfl ⟨_, rfl⟩
  | receive b ht =>
    rw [ht]
    exact h.receive b
  | opens k e hget hopens ht =>
    rw [ht]
    apply Posts.runSpawned
    exact h.congr rfl ⟨_, rfl⟩
  | kept e hreceive hkept => exact h.kept hkept

end posts

end Invoker
end Seuss
