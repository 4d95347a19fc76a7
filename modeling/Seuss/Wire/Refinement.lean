import Seuss.Wire.Session

/-!
This module shows that the stack whose invocations are served by HTTP sessions refines the stack in
which a session is simply executed, closed or aborted, where the sessions are in order.
-/

namespace Seuss
namespace Wire

open Invoker InvocationSession InvokerNode

variable {cfg : Config} {n : Nat} {s t : State n} {e : Event n}

/--
An invocation has a session just if it is blocked, and is owed just as long as its session has
something due.
-/
inductive Related (cfg : Config) (owed : List Invocation) (a : Active) : Option Session → Prop where
  | blocked (session : Session) (path : Deployment.StartPath) (umiId : UmiId)
      (hstage : a.stage = .blocked path umiId) (hserves : Serves cfg a.invocation session)
      (howed : session.due ≠ .nothing ↔ a.invocation ∈ owed) : Related cfg owed a (some session)
  | idle (hstage : ∀ path umiId, a.stage ≠ .blocked path umiId) : Related cfg owed a none

def Holds (cfg : Config) (s : State n) : Prop :=
  ∀ c, Pool.Rel (Related cfg s.stack.owed) (s.stack.node.active c) (s.sessions c)

section related

variable {owed owed' : List Invocation} {a : Active} {session : Option Session}

theorem Related.congr (h : Related cfg owed a session)
    (howed : a.invocation ∈ owed' ↔ a.invocation ∈ owed) :
    Related cfg owed' a session := by
  cases h with
  | blocked session path umiId hstage hserves hdue =>
    apply Related.blocked session path umiId hstage hserves
    rw [hdue, howed]
  | idle hstage => exact .idle hstage

theorem related_sessionOf {srcPort : UInt16} (howed : a.invocation ∈ owed) :
    Related cfg owed a (sessionOf cfg a srcPort) := by
  unfold sessionOf
  split
  . next path umiId hstage =>
    have hserves : Serves cfg a.invocation (newSession cfg a.invocation path srcPort) ∧ _ :=
      serves_newSession path
    exact .blocked _ path umiId hstage hserves.1 (iff_of_true hserves.2 howed)
  . next hstage => exact .idle hstage

end related

section holds

variable {c : Fin n} {k : Nat} {a : Active} {stack : FullStack.State n} {session : Option Session}
  {stage : Stage}

theorem Holds.new : Holds cfg (State.new cfg n) :=
  fun _ => .nil _

theorem Holds.same (h : Holds cfg s) (hactive : stack.node.active = s.stack.node.active)
    (howed : stack.owed = s.stack.owed) :
    Holds cfg { stack := stack, sessions := s.sessions } := by
  intro c
  dsimp only
  rw [hactive, howed]
  exact h c

/--
Where one invocation changes its stage, or whether it is owed, its session does so too.
-/
theorem Holds.set (h : Holds cfg s) (hinv : FullStack.Inv s.stack)
    (ha : (s.stack.node.active c)[k]? = some a)
    (hactive : stack.node.active = (s.stack.node.setStage c k a stage).active)
    (howed : ∀ i, i ≠ a.invocation → (i ∈ stack.owed ↔ i ∈ s.stack.owed))
    (hrelated : Related cfg stack.owed { a with stage := stage } session) :
    Holds cfg (s.setSession stack c k session) := by
  have hself : 0 < isFor a.invocation a := by
    unfold isFor
    rw [if_pos rfl]
    exact Nat.one_pos
  have hother : ∀ (d : Fin n) (j : Nat) (b : Active), (d = c → j ≠ k) →
      (s.stack.node.active d)[j]? = some b →
      ∀ o, Related cfg s.stack.owed b o → Related cfg stack.owed b o := by
    intro d j b hne hb o hb'
    apply hb'.congr
    apply howed
    intro hsame
    have hzero := Tally.eq_zero_of_others ha hself (hinv.isFor_le a.invocation) hb hne
    unfold isFor at hzero
    rw [if_pos hsame] at hzero
    cases hzero
  intro d
  dsimp only [State.setSession]
  rw [hactive]
  dsimp only [InvokerNode.State.setStage]
  by_cases hd : d = c
  . subst hd
    rw [Function.update_self, Function.update_self]
    apply (h d).set hrelated
    intro j b hj
    exact hother d j b fun _ => hj
  . rw [Function.update_of_ne hd, Function.update_of_ne hd]
    apply (h d).mono
    intro b hb
    rcases List.getElem?_of_mem hb with ⟨j, hj⟩
    exact hother d j b (fun hd' => absurd hd' hd) hj

theorem Holds.enter (h : Holds cfg s) (c : Fin n) (i : Invocation) (hinv : FullStack.Inv stack)
    (hactive : stack.node.active = Function.update s.stack.node.active c
      (s.stack.node.active c ++ [{ invocation := i, stage := .trying .hot }]))
    (howed : stack.owed = s.stack.owed ++ [i]) :
    Holds cfg
      { stack := stack, sessions := Function.update s.sessions c (s.sessions c ++ [none]) } := by
  have hone := hinv.isFor_le i
  rw [hactive, Tally.tally_put, Tally.weight_cons, Tally.weight_nil] at hone
  have hother : ∀ (d : Fin n), ∀ b ∈ s.stack.node.active d, ∀ o,
      Related cfg s.stack.owed b o → Related cfg stack.owed b o := by
    intro d b hb o hb'
    apply hb'.congr
    rw [howed, List.mem_append, List.mem_singleton]
    constructor
    . rintro (hmem | hsame)
      . exact hmem
      . have hle := Tally.le_tally (f := isFor i) hb
        have hnew : isFor i { invocation := i, stage := .trying .hot } = 1 := if_pos rfl
        have hold : isFor i b = 1 := if_pos hsame
        omega
    . exact .inl
  intro d
  dsimp only
  rw [hactive]
  by_cases hd : d = c
  . subst hd
    rw [Function.update_self, Function.update_self]
    apply ((h d).mono (hother d)).put
    apply Related.idle
    intro path umiId hstage
    cases hstage
  . rw [Function.update_of_ne hd, Function.update_of_ne hd]
    exact (h d).mono (hother d)

theorem Holds.leave (h : Holds cfg s) (c : Fin n) (k : Nat)
    (hactive : stack.node.active
      = Function.update s.stack.node.active c ((s.stack.node.active c).eraseIdx k))
    (howed : stack.owed = s.stack.owed) :
    Holds cfg
      { stack := stack, sessions := Function.update s.sessions c ((s.sessions c).eraseIdx k) } := by
  intro d
  dsimp only
  rw [hactive, howed]
  by_cases hd : d = c
  . subst hd
    rw [Function.update_self, Function.update_self]
    exact (h d).take k
  . rw [Function.update_of_ne hd, Function.update_of_ne hd]
    exact h d

end holds

section stack

variable {c : Fin n} {k : Nat} {a : Active} {stack : FullStack.State n} {e : FullStack.Event n}

theorem Holds.poke (h : Holds cfg s) {node : Node n}
    (hpoke : s.stack.node.node.step cfg.stack.nativeBuild cfg.stack.limit (.poke c) = some (.ok node))
    (hactive : stack.node = s.stack.node.poked c node)
    (howed : stack.owed = s.stack.owed
      ++ (FullStack.taken s.stack.node (s.stack.node.poked c node) (.poke c)).map Prod.snd)
    (hinv : FullStack.Inv stack) :
    Holds cfg
      { stack := stack, sessions := followed s.stack stack (.node (.poke c)) s.sessions } := by
  have hcores : stack.node.node.cores c = node.cores c := by
    rw [hactive]
    rfl
  dsimp only [followed]
  rw [hcores]
  rcases step_poke_eq_ok hpoke with ⟨_, hinflight⟩ | ⟨i, _, hinflight⟩
  . have hnone : (node.cores c).inflight = (s.stack.node.node.cores c).inflight ++ [] := by
      rw [hinflight, List.append_nil]
    rw [FullStack.taken_of_poke (l := []) hnone, List.map_nil, List.map_nil, List.append_nil] at howed
    rw [FullStack.entered_of_poke hnone, List.map_nil, List.map_nil, List.append_nil,
      Function.update_eq_self]
    apply h.same _ howed
    rw [hactive]
    dsimp only [InvokerNode.State.poked]
    rw [FullStack.entered_of_poke hnone, List.map_nil, List.append_nil, Function.update_eq_self]
  . rw [FullStack.taken_of_poke (l := [i]) hinflight] at howed
    rw [FullStack.entered_of_poke hinflight]
    apply h.enter c i hinv _ howed
    rw [hactive]
    dsimp only [InvokerNode.State.poked]
    rw [FullStack.entered_of_poke hinflight]
    rfl

theorem Holds.step_stack (h : Holds cfg s) (hinv : FullStack.Inv s.stack) (hapart : apart e = true)
    (horderly : FullStack.Orderly cfg.stack s.stack e)
    (hstep : (FullStack.machine cfg.stack n).step s.stack e = some stack) :
    Holds cfg { stack := stack, sessions := followed s.stack stack e s.sessions } := by
  have hinv' := hinv.step horderly hstep
  cases FullStack.happens_of_step hstep with
  | system | ignored => exact h.same rfl rfl
  | queued buf i node hbuf hreceive hnode =>
    cases InvokerNode.happens_of_step hnode with
    | addWork => exact h.same rfl rfl
  | executed => cases hapart
  | node node hother hnode =>
    cases InvokerNode.happens_of_step hnode with
    | addWork => exact absurd rfl (hother _ _)
    | poke c node' hpoke => exact h.poke hpoke rfl rfl hinv'
    | captured | signalHalt => exact h.same rfl (List.append_nil _)
    | leave c k => exact h.leave c k rfl (List.append_nil _)
    | _ => cases hapart

/--
A start path is tried for an invocation that is owed, and leaves it in another stage.
-/
theorem active_attempt {umiId : UmiId} {managed : UmiId → Bool}
    (hstep : (FullStack.machine cfg.stack n).step s.stack (.node (.attempt c k umiId managed))
      = some stack) :
    ∃ a stage, (s.stack.node.active c)[k]? = some a ∧ FullStack.Stage.owes a.stage = true
      ∧ stack.owed = s.stack.owed
      ∧ stack.node.active = (s.stack.node.setStage c k a stage).active := by
  cases FullStack.happens_of_step hstep with
  | node node hother hnode =>
    have howed : s.stack.owed
        ++ (FullStack.taken s.stack.node node (.attempt c k umiId managed)).map Prod.snd
        = s.stack.owed := List.append_nil _
    cases InvokerNode.happens_of_step hnode with
    | hotMissed _ _ a _ _ _ ha hstage | hotStarted _ _ a _ _ _ _ ha hstage
    | warmMissed _ _ a _ _ ha hstage | warmStarted _ _ a _ _ _ ha hstage
    | coldStarted _ _ a _ _ _ ha hstage =>
      refine ⟨a, _, ha, ?_, howed, rfl⟩
      rw [hstage]
      rfl

theorem Holds.attempt (h : Holds cfg s) (hinv : FullStack.Inv s.stack) {umiId : UmiId}
    {managed : UmiId → Bool} {srcPort : UInt16}
    (hstep : (FullStack.machine cfg.stack n).step s.stack (.node (.attempt c k umiId managed))
      = some stack)
    (ha : (stack.node.active c)[k]? = some a) :
    Holds cfg (s.setSession stack c k (sessionOf cfg a srcPort)) := by
  rcases active_attempt hstep with ⟨a', stage, ha', howes, howed, hactive⟩
  have hlt := History.lt_length_of_getElem? ha'
  have hset : (stack.node.active c)[k]? = some { a' with stage := stage } := by
    rw [hactive]
    dsimp only [InvokerNode.State.setStage]
    rw [Function.update_self, List.getElem?_set_self hlt]
  cases ha.symm.trans hset
  have hmem : a'.invocation ∈ stack.owed := by
    have hself : FullStack.owing a'.invocation a' = 1 := if_pos ⟨rfl, howes⟩
    have hle := Tally.le_tally (f := FullStack.owing a'.invocation) (List.mem_of_getElem? ha')
    have hunexecuted := hinv.due.unexecuted a'.invocation
    rw [howed, ← List.count_pos_iff]
    omega
  apply h.set hinv ha' hactive
  . intro i _
    rw [howed]
  . exact related_sessionOf hmem

end stack

section session

-- What an event is to the stack without the sessions.
inductive Means (cfg : Config) (s : State n) : Event n → FullStack.Event n → Prop where
  | stack {e : FullStack.Event n} (hapart : apart e = true) : Means cfg s (.stack e) e
  | attempt (c : Fin n) (k : Nat) (umiId : UmiId) (managed : UmiId → Bool) (srcPort : UInt16) :
      Means cfg s (.attempt c k umiId managed srcPort) (.node (.attempt c k umiId managed))
  | replies {c : Fin n} {k j : Nat} {managed : UmiId → Bool} {env : Env} {b : MutIOBuf}
      (exec : ExecStats) {a : Active} {session : Session}
      (ha : (s.stack.node.active c)[k]? = some a)
      (hsession : (s.sessions c)[k]? = some (some session)) (hok : IsOk b)
      (hposted : .send Invoker.runPath (httpPostRequest Invoker.runPath a.invocation.args false)
        ∈ session.session.effects) :
      Means cfg s (.session c k j managed env (.receive b)) (.executed c k exec (bodyOf b.data))
  | closed (c : Fin n) (k j : Nat) (managed : UmiId → Bool) (env : Env) (e : SessionEvent) :
      Means cfg s (.session c k j managed env e) (.node (.closed c k j managed))
  | aborted (c : Fin n) (k j : Nat) (managed : UmiId → Bool) (env : Env) (e : SessionEvent) :
      Means cfg s (.session c k j managed env e) (.node (.aborted c k j))

def Event.losesFrom (s : State n) (e : Event n) : List UInt64 :=
  match e with
  | .stack e => e.losesFrom s.stack
  | _ => []

def Event.futureIn (s : State n) (e : Event n) : List Nat :=
  match e with
  | .stack e => e.futureIn s.stack
  | _ => []

inductive Matched (cfg : Config) (s : State n) (e : Event n) (t : State n) : Prop where
  | silent (hstack : t.stack = s.stack) (hloses : e.losesFrom s = []) (hfutures : e.futureIn s = [])
  | step (d : FullStack.Event n) (hmeans : Means cfg s e d)
      (horderly : FullStack.Orderly cfg.stack s.stack d)
      (hstep : (FullStack.machine cfg.stack n).step s.stack d = some t.stack)

variable {c : Fin n} {k j : Nat} {managed : UmiId → Bool} {env : Env} {e : SessionEvent}
  {a : Active} {session : Session} {t : InvocationSession} {stack replied : FullStack.State n}
  {path : Deployment.StartPath} {umiId : UmiId}

theorem setStage_self {node : InvokerNode.State n} (ha : (node.active c)[k]? = some a) :
    (node.setStage c k a a.stage).active = node.active := by
  have hself : (node.active c).set k a = node.active c := by
    rcases List.getElem?_eq_some_iff.mp ha with ⟨hk, rfl⟩
    apply List.set_getElem_self
  dsimp only [InvokerNode.State.setStage]
  rw [hself, Function.update_eq_self]

theorem Holds.setSession (h : Holds cfg s) (hinv : FullStack.Inv s.stack)
    (ha : (s.stack.node.active c)[k]? = some a) (hactive : stack.node.active = s.stack.node.active)
    (howed : ∀ i, i ≠ a.invocation → (i ∈ stack.owed ↔ i ∈ s.stack.owed))
    (hrelated : Related cfg stack.owed a (some session)) :
    Holds cfg (s.setSession stack c k (some session)) := by
  have hstage : stack.node.active = (s.stack.node.setStage c k a a.stage).active := by
    rw [hactive, setStage_self ha]
  exact h.set hinv ha hstage howed hrelated

theorem step_executed {exec : ExecStats} {res : CString} (ha : (s.stack.node.active c)[k]? = some a)
    (hstage : a.stage = .blocked path umiId)
    (hreplied : sendReplies s.stack a.invocation [({ a.invocation.info with exec := exec }, res)]
      = some replied) :
    (FullStack.machine cfg.stack n).step s.stack (.executed c k exec res) = some replied
      ∧ replied.node = s.stack.node
      ∧ replied.owed = s.stack.owed.erase a.invocation := by
  simp only [sendReplies, List.foldlM_cons, List.foldlM_nil, Option.bind_eq_bind, Option.pure_def,
    Option.bind_eq_some_iff, Option.map_eq_some_iff, Option.some.injEq] at hreplied
  rcases hreplied with ⟨_, ⟨buf, hsend, rfl⟩, rfl⟩
  refine ⟨?_, rfl, rfl⟩
  change FullStack.State.executed s.stack c k exec res = _
  rw [FullStack.State.executed, ha]
  dsimp only [Option.bind_some]
  rw [hstage]
  dsimp only
  rw [hsend]
  rfl

-- The session has finished with the reply sent.
theorem Holds.closed (h : Holds cfg s) (hinv : FullStack.Inv s.stack)
    (hstep : (FullStack.machine cfg.stack n).step s.stack (.node (.closed c k j managed))
      = some stack) :
    Holds cfg (s.setSession stack c k none) := by
  cases FullStack.happens_of_step hstep with
  | node node hother hnode =>
    cases InvokerNode.happens_of_step hnode with
    | closed _ _ _ _ a path session idle ha hstage =>
      apply h.set hinv ha rfl
      . intro i _
        dsimp only [FullStack.taken]
        rw [List.map_nil, List.append_nil]
      . apply Related.idle
        intro path umiId hstage
        cases hstage

theorem Holds.aborted (h : Holds cfg s) (hinv : FullStack.Inv s.stack)
    (hstep : (FullStack.machine cfg.stack n).step s.stack (.node (.aborted c k j)) = some stack) :
    Holds cfg (s.setSession stack c k none) := by
  cases FullStack.happens_of_step hstep with
  | node node hother hnode =>
    cases InvokerNode.happens_of_step hnode with
    | aborted _ _ _ a path session idle ha hstage =>
      apply h.set hinv ha rfl
      . intro i _
        dsimp only [FullStack.taken]
        rw [List.map_nil, List.append_nil]
      . apply Related.idle
        intro path' umiId hstage
        cases path <;> cases hstage

theorem Holds.replies (h : Holds cfg s) (hinv : FullStack.Inv s.stack)
    (ha : (s.stack.node.active c)[k]? = some a) (hstage : a.stage = .blocked path umiId)
    (hserves : Serves cfg a.invocation session) (hdue : session.due = .nothing)
    (hnode : replied.node = s.stack.node) (howed : replied.owed = s.stack.owed.erase a.invocation) :
    Holds cfg (s.setSession replied c k (some session)) := by
  apply h.setSession hinv ha
  . rw [hnode]
  . intro i hne
    rw [howed, List.mem_erase_of_ne hne]
  . apply Related.blocked session path umiId hstage hserves
    have hcount : s.stack.owed.count a.invocation ≤ 1 := by
      have hle := hinv.isFor_le a.invocation
      have hinFlight := hinv.due.inFlight a.invocation
      omega
    have hnone : a.invocation ∉ replied.owed := by
      rw [howed, ← List.count_eq_zero, List.count_erase_self]
      omega
    exact iff_of_false (not_not_intro hdue) hnone

theorem matched_of_session (hinv : FullStack.Inv s.stack) (h : Holds cfg s)
    (horder : session.InOrder e) (ha : (s.stack.node.active c)[k]? = some a)
    (hsession : (s.sessions c)[k]? = some (some session))
    (hstep : Invoker.stepSession session.config session.session (env, e) = some t)
    (hreplied : sendReplies s.stack a.invocation (newReplies session.session t) = some replied)
    (hstack : finishSession cfg replied c k j managed env t.whenFinished = some stack) :
    Matched cfg s (.session c k j managed env e) (s.setSession stack c k (session.after e t))
      ∧ Holds cfg (s.setSession stack c k (session.after e t)) := by
  cases (h c).rel k a (some session) ha hsession with
  | blocked _ path umiId hstage hserves howed =>
    cases hserves.step horder hstep with
    | waits _ hreplies hstatus hnext hdue =>
      rw [hreplies] at hreplied
      cases hreplied
      rw [hstatus] at hstack
      cases hstack
      have hafter : session.after e t = some (session.next e t) := by
        rw [Session.after, hstatus]
      rw [hafter]
      refine ⟨.silent rfl rfl rfl, ?_⟩
      apply h.setSession hinv ha rfl
      . intro i _
        exact Iff.rfl
      . exact .blocked _ path umiId hstage hnext (by rw [ne_eq, hdue]; exact howed)
    | replies b exec hok hposted hreplies hstatus hnext hdue hnothing =>
      rw [hreplies] at hreplied
      rcases step_executed ha hstage hreplied with ⟨hexecuted, hnode, hrest⟩
      rw [hstatus] at hstack
      cases hstack
      have hafter : session.after (.receive b) t = some (session.next (.receive b) t) := by
        rw [Session.after, hstatus]
      rw [hafter]
      refine ⟨.step _ (.replies exec ha hsession hok hposted) ?_ hexecuted, ?_⟩
      . intro a' ha'
        rw [ha] at ha'
        cases ha'
        exact howed.mp hdue
      . exact h.replies hinv ha hstage hnext hnothing hnode hrest
    | ends _ status hreplies hstatus hdue =>
      rw [hreplies] at hreplied
      cases hreplied
      have hafter : session.after e t = none := by
        rw [Session.after, hstatus]
      rw [hafter]
      rw [hstatus] at hstack
      cases status with
      | true =>
        simp only [finishSession, Option.bind_eq_bind, Option.bind_eq_some_iff] at hstack
        rcases hstack with ⟨stack', hclosed, hsaved⟩
        split at hsaved
        . cases hsaved
          refine ⟨.step _ (.closed c k j managed env e) ?_ hclosed, h.closed hinv hclosed⟩
          intro a' ha'
          rw [ha] at ha'
          cases ha'
          rw [← howed]
          exact not_not_intro (hdue.mp rfl)
        . cases hsaved
      | false =>
        refine ⟨.step _ (.aborted c k j managed env e) ?_ hstack, h.aborted hinv hstack⟩
        intro a' ha'
        rw [ha] at ha'
        cases ha'
        rw [← howed, ne_eq, ← hdue]
        exact Bool.false_ne_true

end session

section run

variable {es : List (Event n)} {t : State n}

theorem matched_of_step (hinv : FullStack.Inv s.stack) (h : Holds cfg s)
    (horder : FreshInOrder cfg s e)
    (hs : (machine cfg n).step s e = some t) :
    Matched cfg s e t ∧ Holds cfg t := by
  cases happens_of_step hs with
  | stack stack hapart hstep =>
    have horderly := orderly_of_freshTids hapart horder.1
    exact ⟨.step _ (.stack hapart) horderly hstep, h.step_stack hinv hapart horderly hstep⟩
  | attempt stack a hstep ha =>
    exact ⟨.step _ (.attempt _ _ _ _ _) trivial hstep, h.attempt hinv hstep ha⟩
  | session a session t' replied stack ha hsession hstep hrunning hreplied hstack =>
    apply matched_of_session hinv h _ ha hsession hstep hreplied hstack
    apply horder.2
    rw [hsession]
    rfl

-- the transactions whose request or reply was lost in a run
def lost (cfg : Config) (es : List (Event n)) : List UInt64 :=
  (machine cfg n).outputs (fun s e => e.losesFrom s) (.new cfg n) es

-- the futures that `ScheduleActivation` returned in a run
def futures (cfg : Config) (es : List (Event n)) : List Nat :=
  (machine cfg n).outputs (fun s e => e.futureIn s) (.new cfg n) es

-- The call that returned the future `promise` was for `am` and has sent `i`.
def ScheduledFor (cfg : Config) (es : List (Event n)) (promise : Nat) (am : Msg.ActivationMessage)
    (i : Invocation) : Prop :=
  ∃ before env code s, before ++ [.stack (.system (.scheduleActivation env am code))] <+: es
    ∧ (machine cfg n).run before = some s
    ∧ s.stack.hosted.clock = promise
    ∧ i = System.scheduledInvocation cfg.stack.hash env am code

-- The session of the invocation had posted its arguments and was given the successful response `b`.
def AnsweredFor (cfg : Config) (es : List (Event n)) (i : Invocation) (b : MutIOBuf) : Prop :=
  ∃ before c k j managed env s a session, before ++ [.session c k j managed env (.receive b)] <+: es
    ∧ (machine cfg n).run before = some s
    ∧ (s.stack.node.active c)[k]? = some a
    ∧ a.invocation = i
    ∧ (s.sessions c)[k]? = some (some session)
    ∧ .send Invoker.runPath (httpPostRequest Invoker.runPath i.args false)
      ∈ session.session.effects
    ∧ IsOk b

theorem Means.losesFrom {d : FullStack.Event n} (h : Means cfg s e d) :
    d.losesFrom s.stack = e.losesFrom s := by
  cases h <;> rfl

theorem Means.futureIn {d : FullStack.Event n} (h : Means cfg s e d) :
    d.futureIn s.stack = e.futureIn s := by
  cases h <;> rfl

/--
The stack with its sessions refines the one without them.
-/
def refinement (cfg : Config) (n : Nat) :
    Machine.Refinement ((machine cfg n).restrict (FreshInOrder cfg))
      ((FullStack.machine cfg.stack n).restrict (FullStack.Orderly cfg.stack)) where
  view := State.stack
  Inv s := FullStack.Inv s.stack ∧ Holds cfg s
  Silent s e := e.losesFrom s = [] ∧ e.futureIn s = []
  Means := Means cfg
  view_init := rfl
  inv_init := ⟨.new, .new⟩
  inv_step := by
    rintro s e t ⟨hinv, hholds⟩ hstep
    rw [Machine.restrict_step] at hstep
    rcases matched_of_step hinv hholds hstep.1 hstep.2 with ⟨hmatched, hholds'⟩
    refine ⟨?_, hholds'⟩
    cases hmatched with
    | silent hstack =>
      rw [hstack]
      exact hinv
    | step d hmeans horderly hd => exact hinv.step horderly hd
  simulates := by
    rintro s e t ⟨hinv, hholds⟩ hstep
    rw [Machine.restrict_step] at hstep
    cases (matched_of_step hinv hholds hstep.1 hstep.2).1 with
    | silent hstack hloses hfutures => exact .inl ⟨⟨hloses, hfutures⟩, hstack⟩
    | step d hmeans horderly hd =>
      exact .inr ⟨d, hmeans, Machine.restrict_step.mpr ⟨horderly, hd⟩⟩

section trace

variable {fs : List (FullStack.Event n)}

theorem lost_of_trace (h : (refinement cfg n).Trace es s fs) :
    FullStack.lost cfg.stack fs = lost cfg es := by
  apply h.outputs_of_restrict
  . intro s e hsilent
    exact hsilent.1
  . intro s e d hmeans
    exact Means.losesFrom hmeans

theorem futures_of_trace (h : (refinement cfg n).Trace es s fs) :
    FullStack.futures cfg.stack fs = futures cfg es := by
  apply h.outputs_of_restrict
  . intro s e hsilent
    exact hsilent.2
  . intro s e d hmeans
    exact Means.futureIn hmeans

theorem scheduledFor_of_trace (h : (refinement cfg n).Trace es s fs) {promise : Nat}
    {am : Msg.ActivationMessage} {i : Invocation}
    (hscheduled : FullStack.ScheduledFor cfg.stack fs promise am i) :
    ScheduledFor cfg es promise am i := by
  rcases hscheduled with ⟨before, env, code, s', hbefore, hs', hclock, hi⟩
  rcases h.occurs hbefore with ⟨es₀, e, s₀, hes, hrun, hview, hmeans⟩
  cases hs'.symm.trans (Machine.runFrom_of_restrict hview)
  cases hmeans with
  | stack => exact ⟨es₀, env, code, s₀, hes, Machine.runFrom_of_restrict hrun, hclock, hi⟩

theorem answeredFor_of_trace (h : (refinement cfg n).Trace es s fs) {i : Invocation} {exec : ExecStats}
    {res : CString} (hexecuted : FullStack.ExecutedFor cfg.stack fs i exec res) :
    ∃ b, res = bodyOf b.data ∧ AnsweredFor cfg es i b := by
  rcases hexecuted with ⟨before, c, k, s', a, hbefore, hs', ha, hi⟩
  rcases h.occurs hbefore with ⟨es₀, e, s₀, hes, hrun, hview, hmeans⟩
  cases hs'.symm.trans (Machine.runFrom_of_restrict hview)
  cases hmeans with
  | stack hapart => cases hapart
  | @replies _ _ j managed env b _ a' session ha' hsession hok hposted =>
    cases ha.symm.trans ha'
    rw [hi] at hposted
    exact ⟨b, rfl, es₀, c, k, j, managed, env, s₀, a, session, hes, Machine.runFrom_of_restrict hrun, ha,
      hi, hsession, hposted, hok⟩

end trace

-- The message is the code of the invocation for `/init` or its arguments for `/run`.
def Concerns (i : Invocation) (path msg : CString) : Prop :=
  path = Invoker.initPath ∧ msg = httpPostRequest Invoker.initPath i.code true
    ∨ path = Invoker.runPath ∧ msg = httpPostRequest Invoker.runPath i.args false

theorem Serves.concerns {i : Invocation} {session : Session} (h : Serves cfg i session)
    {path msg : CString} (hsend : .send path msg ∈ session.session.effects) :
    Concerns i path msg := by
  rcases h.config with ⟨code, hcode, hconfig⟩
  have hasks := h.posts.sent path msg hsend
  rw [hconfig] at hasks
  rcases hasks with ⟨hpath, hne, hmsg⟩ | hrun
  . refine .inl ⟨hpath, ?_⟩
    rwa [← hcode.resolve_left hne]
  . exact .inr hrun

/--
In every run in which transaction ids are fresh and the sessions are in order, the stack is in a state
that it gets to without the sessions, with the same futures returned and the same messages lost. A fresh
id is neither outstanding nor that of an invocation still on a core. A session in order is answered what
it asks and closed when it has been answered everything; it is given up only before, and then its last
request is not answered any more. No future is fulfilled twice, and each one that is fulfilled carries
the data of its activation and the body of a successful response to the arguments that a session has
posted for the very invocation which was sent for it. An instance is only ever sent the code and the
arguments of the invocation that is blocked on its session.
-/
theorem refinesStack (h : ((machine cfg n).restrict (FreshInOrder cfg)).run es = some s) :
    (∃ fs, ((FullStack.machine cfg.stack n).restrict (FullStack.Orderly cfg.stack)).run fs
          = some s.stack
        ∧ FullStack.lost cfg.stack fs = lost cfg es
        ∧ FullStack.futures cfg.stack fs = futures cfg es)
      ∧ (s.stack.hosted.fulfilled.map Controller.Fulfilled.promise).Nodup
      ∧ (∀ f ∈ s.stack.hosted.fulfilled, ∃ am i exec b, ScheduledFor cfg es f.promise am i
        ∧ AnsweredFor cfg es i b
        ∧ Controller.Carries f.message am
          { i.info with argsSize := (bodyOf b.data).length, exec := exec } (bodyOf b.data))
      ∧ ∀ (c : Fin n) (k : Nat) (session : Session), (s.sessions c)[k]? = some (some session) →
        ∃ (a : Active) (path : Deployment.StartPath) (umiId : UmiId),
          (s.stack.node.active c)[k]? = some a
          ∧ a.stage = .blocked path umiId
          ∧ ∀ path msg, .send path msg ∈ session.session.effects →
            Concerns a.invocation path msg := by
  rcases (refinement cfg n).exists_trace h with ⟨fs, htrace⟩
  have honce := Machine.restrict_mono (fun _ _ => FullStack.once_of_orderly) htrace.view_run
  rcases (FullStack.refinement cfg.stack n).exists_trace honce with ⟨ds, hstack⟩
  have hholds := htrace.inv.2
  refine ⟨⟨fs, htrace.view_run, lost_of_trace htrace, futures_of_trace htrace⟩,
    FullStack.nodup_of_trace hstack, ?_, ?_⟩
  . intro f hf
    rcases FullStack.answered_of_trace hstack f hf with ⟨am, i, exec, res, hsent, hexecuted, hcarries⟩
    rcases answeredFor_of_trace htrace hexecuted with ⟨b, rfl, hanswered⟩
    exact ⟨am, i, exec, b, scheduledFor_of_trace htrace hsent, hanswered, hcarries⟩
  . intro c k session hsession
    rcases (hholds c).get hsession with ⟨a, ha, hrelated⟩
    cases hrelated with
    | blocked _ path umiId hstage hserves =>
      exact ⟨a, path, umiId, ha, hstage, fun _ _ => hserves.concerns⟩

end run

def exampleConfig : Config where
  stack := FullStack.exampleConfig
  promises := ⟨.throws, true⟩

-- An activation is served by a cold start, whose instance answers to the code and to the arguments.
def coldStart (mine c : Fin 2) : List (Event 2) :=
  let env : Controller.ScheduleEnv :=
    { getAction := fun _ => "code".toList, now := 0, beyond := fun _ => 'x' }
  let uninit : Msg.CompletionMessage :=
    .ofActivation ⟨⟨[], 0⟩, { statusCode := 0 }, ⟨0, []⟩⟩ (Msg.testActivation [] [])
  let managed : UmiId → Bool := fun _ => true
  let events : List (Env × SessionEvent) := opening ++ [
    (⟨4, false⟩, .receive (okResponse InvocationSession.initialized)),
    (⟨5, false⟩, .receive (okResponse exampleResult)),
    (⟨6, false⟩, .close),
    (⟨7, true⟩, .spawned 0)
  ]
  [
    .stack (.system (.registerNode 4 "10.0.0.2".toList)),
    .stack (.system (.scheduleActivation env (Msg.testActivation "a".toList "r".toList) [])),
    .stack (.system (.sendRequest 0)),
    .stack (.receiveRequest mine 0),
    .stack (.node (.poke c)),
    .attempt c 0 0 managed 0,
    .attempt c 0 0 managed 0,
    .attempt c 0 4 managed 49160
  ] ++ events.map (fun e => .session c 0 0 managed e.1 e.2)
    ++ [.stack (.system (.receiveReply 0 uninit 9000000))]

theorem coldStart_run :
    (((machine exampleConfig 2).restrict (FreshInOrder exampleConfig)).run (coldStart 0 1)).isSome := by
  decide

theorem refinesStack_coldStart :
    ∃ s, ((machine exampleConfig 2).restrict (FreshInOrder exampleConfig)).run (coldStart 0 1) = some s
      ∧ s.stack.hosted.fulfilled.map (fun f => f.message.response.result) = [exampleResult]
      ∧ ∀ f ∈ s.stack.hosted.fulfilled, ∃ am i exec b,
        ScheduledFor exampleConfig (coldStart 0 1) f.promise am i
        ∧ AnsweredFor exampleConfig (coldStart 0 1) i b
        ∧ Controller.Carries f.message am
          { i.info with argsSize := (bodyOf b.data).length, exec := exec } (bodyOf b.data) := by
  have hrun := (Option.some_get coldStart_run).symm
  exact ⟨_, hrun, by decide, (refinesStack hrun).2.2.1⟩

end Wire
end Seuss
