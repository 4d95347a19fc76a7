import Seuss.Invoker.SessionLemmas

/-!
This module contains what becomes of a response that is not a success. `Receive` aborts the session
and goes on: it classifies the body of the failed response like that of any other.
-/

namespace Seuss
namespace Invoker

open InvocationSession

variable {cfg : SessionConfig} {s t : InvocationSession} {env : Env}

structure ReportedAsFailure (s t : InvocationSession) : Prop where
  notResolved : ∀ istats ret, istats.exec.status = false → .resolve istats ret ∉ effectsSince s t
  notInitialized : .setValue .initialized ∉ effectsSince s t
  notExecuted : .setValue .executed ∉ effectsSince s t
  notSent : ∀ path msg, .send path msg ∉ effectsSince s t
  aborted : .finish false ∈ effectsSince s t
  finished : t.whenFinished = some false

theorem effects_receiveResponse (cfg : SessionConfig) (env : Env) (response : CString)
    (s : InvocationSession) :
    ∃ sig, (sig = .initialized ∨ sig = .executed)
      ∧ s.effects ++ [.setValue sig]
          <+: (receiveResponse cfg.promises (handlers cfg) env response s).settle.effects := by
  unfold receiveResponse
  split
  . exact ⟨.initialized, .inl rfl, effects_setValue cfg env _ { s with isInitialized := true }⟩
  . exact ⟨.executed, .inr rfl, effects_setValue cfg env _ { s with reply := response }⟩

theorem not_reportedAsFailure_of_receiveResponse {response : CString}
    (h : s.effects <+: t.effects) :
    ¬ ReportedAsFailure s (receiveResponse cfg.promises (handlers cfg) env response t).settle := by
  intro hfailure
  rcases effects_receiveResponse cfg env response t with ⟨sig, hsig, heffects⟩
  have hmem := mem_effectsSince h heffects
  cases hsig with
  | inl hsig =>
    subst hsig
    exact hfailure.notInitialized hmem
  | inr hsig =>
    subst hsig
    exact hfailure.notExecuted hmem

theorem not_reportedAsFailure_of_effects {l : List Effect} (h : t.effects = s.effects ++ l)
    (hl : .finish false ∉ l) :
    ¬ ReportedAsFailure s t := by
  intro hfailure
  have haborted := hfailure.aborted
  simp [effectsSince, h, hl] at haborted

theorem whenAborted_eq_threw {stop : Stop} (h : whenAborted cfg s = .threw stop t) :
    cfg.promises.second = .throws ∧ s.whenFinished ≠ none ∧ t.whenFinished = s.whenFinished := by
  apply finish_eq_threw
  apply andThen_eq_threw h
  intro u
  exact ⟨_, rfl⟩

-- The callback of an abort throws only where the session has ended before.
theorem setValue_aborted_eq_threw {stop : Stop}
    (h : setValue cfg.promises (handlers cfg) env .aborted s = .threw stop t) :
    t.effects = s.effects ++ [.setValue .aborted]
      ∨ s.satisfied .aborted = false ∧ s.whenFinished ≠ none ∧ t.whenFinished = s.whenFinished := by
  unfold setValue at h
  dsimp only at h
  split at h
  . next _ hsatisfied =>
    exact .inr ⟨hsatisfied, (whenAborted_eq_threw (callback_eq_threw h)).2⟩
  . cases h
    exact .inl rfl
  . cases h
  . next hreruns =>
    have hthrows := (whenAborted_eq_threw (callback_eq_threw h)).1
    rw [hreruns] at hthrows
    cases hthrows

theorem receiveFailure_eq_threw {response : CString} {stop : Stop}
    (h : receiveFailure cfg.promises (handlers cfg) env response s = .threw stop t) :
    t.effects = s.effects ++ [.setValue .aborted]
      ∨ s.satisfied .aborted = false ∧ s.whenFinished ≠ none ∧ t.whenFinished = s.whenFinished := by
  apply setValue_aborted_eq_threw (s := { s with reply := response })
  apply andThen_eq_threw h
  intro u
  exact ⟨_, rfl⟩

theorem effects_receiveFailure (cfg : SessionConfig) (env : Env) (response : CString)
    (s : InvocationSession) :
    s.effects
      <+:
    (receiveFailure cfg.promises (handlers cfg) env response s).settle.effects := by
  have hset : s.effects
      <+: (setValue cfg.promises (handlers cfg) env .aborted { s with reply := response }).settle.effects := by
    apply List.IsPrefix.trans _ (effects_setValue cfg env .aborted { s with reply := response })
    apply List.prefix_append
  unfold receiveFailure
  cases h : setValue cfg.promises (handlers cfg) env .aborted { s with reply := response } with
  | done u =>
    rw [h] at hset
    exact hset.trans (List.prefix_append _ _)
  | threw stop u =>
    rw [h] at hset
    exact hset

/--
No response that is not a success is reported as a failure: `Receive` throws where it has no `{`
and otherwise signals one of the two promises of a success, unless the session had ended before.
-/
theorem receive_not_reportedAsFailure {srcPort : UInt16} {istats : InvocationStats} {b : MutIOBuf}
    (hreachable : (sessionMachine cfg srcPort istats).Reachable s)
    (hstatus : httpStatusOf b.data ≠ httpOk) :
    ¬ ReportedAsFailure s (s.receive cfg.promises (handlers cfg) env b).settle := by
  unfold receive
  split
  . apply not_reportedAsFailure_of_effects (l := [])
    . simp [Outcome.settle]
    . simp
  . split
    . apply not_reportedAsFailure_of_effects (l := [])
      . simp [Outcome.settle]
      . simp
    . next response _ =>
      cases hfailure : receiveFailure cfg.promises (handlers cfg) env response s with
      | done u =>
        apply not_reportedAsFailure_of_receiveResponse
        have heffects := effects_receiveFailure cfg env response s
        rwa [hfailure] at heffects
      | threw stop u =>
        cases receiveFailure_eq_threw hfailure with
        | inl heffects =>
          apply not_reportedAsFailure_of_effects (t := Outcome.settle (.threw stop u)) heffects
          simp
        | inr hended =>
          rcases hended with ⟨hsatisfied, _, hfinished⟩
          intro hreported
          have hfailed : s.whenFinished = some false := by
            rw [← hfinished]
            exact hreported.finished
          rw [failedOnlyByAbort_of_reachable hreachable hfailed] at hsatisfied
          cases hsatisfied

def serverError : MutIOBuf where
  data := "HTTP/1.1 500 Internal Server Error\r\n\r\n\x7b\"error\":1\x7d".toList
  isChained := false

theorem receive_not_reportedAsFailure_opened_run :
    ((sessionMachine (exampleConfig ⟨.throws, true⟩ []) 49160 exampleStats).run opening).isSome := by
  decide

theorem receive_not_reportedAsFailure_opened :
    ∃ s, (sessionMachine (exampleConfig ⟨.throws, true⟩ []) 49160 exampleStats).Reachable s
      ∧ ¬ ReportedAsFailure s (s.receive ⟨.throws, true⟩
          (handlers (exampleConfig ⟨.throws, true⟩ [])) ⟨4, false⟩ serverError).settle := by
  have hrun := (Option.some_get receive_not_reportedAsFailure_opened_run).symm
  exact ⟨_, ⟨_, hrun⟩, receive_not_reportedAsFailure ⟨_, hrun⟩ (by decide)⟩

theorem failed_init_resolved_as_success_run :
    ((sessionMachine (exampleConfig ⟨.throws, true⟩ "code".toList) 49160 exampleStats).run
      (opening ++ [(⟨4, false⟩, .receive serverError)])).isSome := by
  decide

theorem failed_init_resolved_as_success :
    ∃ s, (sessionMachine (exampleConfig ⟨.throws, true⟩ "code".toList) 49160 exampleStats).run
        (opening ++ [(⟨4, false⟩, .receive serverError)]) = some s
      ∧ httpStatusOf serverError.data ≠ httpOk
      ∧ s.whenFinished = some false
      ∧ s.replies.map (fun r => (r.1.exec.status, r.2))
          = [(false, "\x7b\"error\":1\x7d".toList)] := by
  have hrun := (Option.some_get failed_init_resolved_as_success_run).symm
  exact ⟨_, hrun, by decide, by decide, by decide⟩

end Invoker
end Seuss
