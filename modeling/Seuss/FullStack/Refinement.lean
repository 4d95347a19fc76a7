import Seuss.Data.Refinement
import Seuss.FullStack.Basic
import Seuss.InvokerNode.Service

/-!
This module shows that the system with its whole node refines the system in which an invocation that was
dequeued is simply replied to: every event of it is one of those or none at all.
-/

namespace Seuss
namespace FullStack

variable {cfg : Config} {n : Nat} {s t : State n} {e : Event n}

def Event.losesFrom (s : State n) (e : Event n) : List UInt64 :=
  match e with
  | .system e => e.losesFrom s.view
  | _ => []

def Event.futureIn (s : State n) (e : Event n) : List Nat :=
  match e with
  | .system e => e.futureIn s.view
  | _ => []

-- the transactions whose request or reply was lost in a run
def lost (cfg : Config) (es : List (Event n)) : List UInt64 :=
  (machine cfg n).outputs (fun s e => e.losesFrom s) (.new cfg n) es

-- the futures that `ScheduleActivation` returned in a run
def futures (cfg : Config) (es : List (Event n)) : List Nat :=
  (machine cfg n).outputs (fun s e => e.futureIn s) (.new cfg n) es

section step

theorem step_outside {sys sys' : System.State} {config : System.Config} {e : System.Event}
    (houtside : outside e = true) (hs : (System.machine config).step sys e = some sys') :
    sys' = { sys with hosted := sys'.hosted, requests := sys'.requests, replies := sys'.replies } := by
  rw [System.machine_step] at hs
  cases System.happens_of_step hs with
  | registerNode | scheduleActivation | sendRequest | loseRequest | loseReply => rfl
  | receiveRequest | idle | getWork | sendReply => cases houtside
  | receiveReply buf received hbuf hreceive hresolve =>
    rcases System.resolveReceived_cases hresolve with ⟨clock, _, rfl, _⟩ | ⟨_, _, _, _, _, rfl⟩
    . rfl
    . rfl

theorem step_system {d : System.Event} (hs : (machine cfg n).step s (.system d) = some t) :
    (System.machine (cfg.system n)).step s.view d = some t.view := by
  cases happens_of_step hs with
  | system sys houtside hstep =>
    rw [hstep, step_outside houtside hstep]
    rfl

-- What an event is to the system without the node.
inductive Means (s : State n) : Event n → System.Event → Prop where
  | system {e : System.Event} (houtside : outside e = true) : Means s (.system e) e
  | receiveRequest (mine : Fin n) (k : Nat) : Means s (.receiveRequest mine k) (.receiveRequest mine k)
  | getWork (c : Fin n) : Means s (.node (.poke c)) (.getWork c)
  | sendReply {c : Fin n} {k j : Nat} {exec : ExecStats} {res : CString} {a : InvokerNode.Active}
      (ha : (s.node.active c)[k]? = some a) (hj : s.view.working[j]? = some a.invocation) :
      Means s (.executed c k exec res) (.sendReply j exec res)

/--
What an event does to the system without the node: nothing, or what one of its own events does.
-/
inductive Matched (cfg : Config) (s : State n) (e : Event n) (t : State n) : Prop where
  | silent (hview : t.view = s.view) (hloses : e.losesFrom s = []) (hfutures : e.futureIn s = [])
  | step (d : System.Event) (hmeans : Means s e d)
      (hstep : (System.machine (cfg.system n)).step s.view d = some t.view)

section means

variable {d : System.Event}

theorem Means.losesFrom (h : Means s e d) : d.losesFrom s.view = e.losesFrom s := by
  cases h <;> rfl

theorem Means.futureIn (h : Means s e d) : d.futureIn s.view = e.futureIn s := by
  cases h <;> rfl

theorem Means.freshTid (h : Means s e d) (hfresh : FreshTid cfg s e) :
    System.FreshTid (cfg.system n) s.view d := by
  cases h with
  | system => exact hfresh
  | _ => trivial

end means

theorem Matched.outside {e : System.Event} {sys : System.State} (houtside : outside e = true)
    (hstep : (System.machine (cfg.system n)).step s.view e = some sys) :
    Matched cfg s (.system e)
      { s with hosted := sys.hosted, requests := sys.requests, replies := sys.replies } := by
  refine .step e (.system houtside) ?_
  rw [hstep, step_outside houtside hstep]
  rfl

theorem Matched.queued {mine : Fin n} {k : Nat} {buf : IOBuf} {i : Invocation}
    {node : InvokerNode.State n} (hbuf : s.requests[k]? = some buf)
    (hreceive : SeussChannel.receiveMessage .native cfg.nativeBuild buf = .ok (.queue i))
    (hnode : (cfg.node n).step s.node (.addWork mine i) = some node) :
    Matched cfg s (.receiveRequest mine k)
      { s with requests := s.requests.eraseIdx k, node := node, added := s.added ++ [i] } := by
  refine .step _ (.receiveRequest mine k) ?_
  cases InvokerNode.happens_of_step hnode with
  | addWork _ _ node hadd =>
    rcases InvokerNode.step_addWork_eq_ok hadd with ⟨pokes, hadd⟩
    have hwork : (s.view.root).addWork cfg.nativeBuild n mine i
        = .ok (InvokerNode.withoutCache node.root, pokes) := InvokerNode.addWork_withoutCache hadd
    rw [System.machine_step, System.State.step]
    have hbuf' : s.view.requests[k]? = some buf := hbuf
    have hreceive' : SeussChannel.receiveMessage .native (cfg.system n).nativeBuild buf = .ok (.queue i) :=
      hreceive
    have hadd' : s.view.root.addWork (cfg.system n).nativeBuild (cfg.system n).numCpus mine i
        = .ok (InvokerNode.withoutCache node.root, pokes) := hwork
    simp only [hbuf', Option.map_some, hreceive', bind, Except.bind, System.queueInvocation, hadd']
    rfl

theorem Matched.ignored {mine : Fin n} {k : Nat} {buf : IOBuf} {received : Received}
    (hbuf : s.requests[k]? = some buf)
    (hreceive : SeussChannel.receiveMessage .native cfg.nativeBuild buf = .ok received)
    (hother : ∀ i, received ≠ .queue i) :
    Matched cfg s (.receiveRequest mine k) { s with requests := s.requests.eraseIdx k } := by
  refine .step _ (.receiveRequest mine k) ?_
  have hbuf' : s.view.requests[k]? = some buf := hbuf
  have hreceive' : SeussChannel.receiveMessage .native (cfg.system n).nativeBuild buf = .ok received :=
    hreceive
  rw [System.machine_step, System.State.step, hbuf']
  simp only [Option.map_some, hreceive', bind, Except.bind]
  cases received with
  | queue i => exact absurd rfl (hother i)
  | _ => rfl

theorem taken_of_poke {before after : InvokerNode.State n} {c : Fin n} {l : List Invocation}
    (h : (after.node.cores c).inflight = (before.node.cores c).inflight ++ l) :
    taken before after (.poke c) = l.map fun i => (c.val, i) := by
  rw [← InvokerNode.map_invocation_entered h, List.map_map]
  rfl

theorem Matched.poke {c : Fin n} {node : InvokerNode.State n}
    (hnode : (cfg.node n).step s.node (.poke c) = some node) :
    Matched cfg s (.node (.poke c)) {
      s with
      node := node
      owed := s.owed ++ (taken s.node node (.poke c)).map Prod.snd
      handed := s.handed ++ taken s.node node (.poke c)
    } := by
  cases InvokerNode.happens_of_step hnode with
  | poke _ node' hpoke =>
    rcases InvokerNode.step_poke_eq_ok hpoke with ⟨hroot, hinflight⟩ | ⟨i, hwork, hinflight⟩
    . have hnone : taken s.node (s.node.poked c node') (.poke c) = [] :=
        taken_of_poke (l := []) (by rw [List.append_nil]; exact hinflight)
      refine .silent ?_ rfl rfl
      rw [hnone, List.map_nil, List.append_nil, List.append_nil]
      unfold State.view
      dsimp only [InvokerNode.State.poked]
      rw [hroot]
    . have hone : taken s.node (s.node.poked c node') (.poke c) = [(c.val, i)] :=
        taken_of_poke (l := [i]) hinflight
      have hwork' : s.view.root.getWork (cfg.system n).nativeBuild
          = .ok (InvokerNode.withoutCache node'.root, some i) := InvokerNode.getWork_withoutCache hwork
      refine .step _ (.getWork c) ?_
      rw [hone, System.machine_step, System.State.step, hwork']
      rfl

theorem Matched.silent_node {e : InvokerNode.Event n} {node : InvokerNode.State n}
    (htaken : taken s.node node e = [])
    (hroot : InvokerNode.withoutCache node.node.root = InvokerNode.withoutCache s.node.node.root) :
    Matched cfg s (.node e) {
      s with
      node := node
      owed := s.owed ++ (taken s.node node e).map Prod.snd
      handed := s.handed ++ taken s.node node e
    } := by
  refine .silent ?_ rfl rfl
  rw [htaken, List.map_nil, List.append_nil, List.append_nil]
  unfold State.view
  dsimp only
  rw [hroot]

theorem Matched.node {e : InvokerNode.Event n} {node : InvokerNode.State n}
    (hother : ∀ mine i, e ≠ .addWork mine i) (hnode : (cfg.node n).step s.node e = some node) :
    Matched cfg s (.node e) {
      s with
      node := node
      owed := s.owed ++ (taken s.node node e).map Prod.snd
      handed := s.handed ++ taken s.node node e
    } := by
  cases InvokerNode.happens_of_step hnode with
  | addWork => exact absurd rfl (hother _ _)
  | poke => exact .poke hnode
  | captured k sv checkpoint root fate hk hroot =>
    exact .silent_node rfl (InvokerNode.withoutCache_setSnapshot hroot)
  | leave c k a node' ha hstage hleave =>
    apply Matched.silent_node rfl
    have hstep : (Invoker.machine cfg.nativeBuild cfg.limit n).step s.node.node (.leave c k) = some node' :=
      Invoker.machine_step.mpr hleave
    dsimp only [InvokerNode.State.left]
    rw [(Invoker.step_leave hstep).2.1]
  | _ => exact .silent_node rfl rfl

theorem Matched.executed {c : Fin n} {k : Nat} {exec : ExecStats} {res : CString}
    {a : InvokerNode.Active} {buf : IOBuf} (ha : (s.node.active c)[k]? = some a)
    (hreplies : a.invocation ∈ s.owed)
    (hsend : SeussChannel.sendReply { a.invocation.info with exec := exec } res = .ok buf) :
    Matched cfg s (.executed c k exec res)
      { s with owed := s.owed.erase a.invocation, replies := s.replies ++ [buf] } := by
  have hworking : s.view.working[s.owed.idxOf a.invocation]? = some a.invocation :=
    List.getElem?_idxOf hreplies
  refine .step _ (.sendReply ha hworking) ?_
  rw [System.machine_step, System.State.step, hworking, Option.map_some, hsend]
  simp only [bind, Except.bind]
  rw [← List.eraseIdx_idxOf_eq_erase]
  rfl

theorem matched_of_step (hreplies : RepliesOnce s e) (h : (machine cfg n).step s e = some t) :
    Matched cfg s e t := by
  cases happens_of_step h with
  | system sys houtside hstep => exact .outside houtside hstep
  | queued buf i node hbuf hreceive hnode => exact .queued hbuf hreceive hnode
  | ignored buf received hbuf hreceive hother => exact .ignored hbuf hreceive hother
  | node node hother hnode => exact .node hother hnode
  | executed a path umiId buf ha hstage hsend => exact .executed ha (hreplies a ha) hsend

end step

section run

variable {es : List (Event n)}

-- The call that returned the future `promise` was for `am` and has sent `i`.
def ScheduledFor (cfg : Config) (es : List (Event n)) (promise : Nat) (am : Msg.ActivationMessage)
    (i : Invocation) : Prop :=
  ∃ before env code s, before ++ [.system (.scheduleActivation env am code)] <+: es
    ∧ (machine cfg n).run before = some s
    ∧ s.hosted.clock = promise
    ∧ i = System.scheduledInvocation cfg.hash env am code

def ExecutedFor (cfg : Config) (es : List (Event n)) (i : Invocation) (exec : ExecStats)
    (res : CString) : Prop :=
  ∃ before c k s a, before ++ [.executed c k exec res] <+: es
    ∧ (machine cfg n).run before = some s
    ∧ (s.node.active c)[k]? = some a
    ∧ a.invocation = i

/--
The stack with the whole node refines the system in which an invocation is simply replied to.
-/
def refinement (cfg : Config) (n : Nat) :
    Machine.Refinement ((machine cfg n).restrict (Once cfg))
      ((System.machine (cfg.system n)).restrict (System.FreshTid (cfg.system n))) where
  view := State.view
  Inv _ := True
  Silent s e := e.losesFrom s = [] ∧ e.futureIn s = []
  Means := Means
  view_init := rfl
  inv_init := trivial
  inv_step _ _ _ _ _ := trivial
  simulates := by
    intro s e t _ hstep
    rw [Machine.restrict_step] at hstep
    rcases hstep with ⟨⟨hfresh, hreplies⟩, hstep⟩
    cases matched_of_step hreplies hstep with
    | silent hview hloses hfutures => exact .inl ⟨⟨hloses, hfutures⟩, hview⟩
    | step d hmeans hd =>
      exact .inr ⟨d, hmeans, Machine.restrict_step.mpr ⟨hmeans.freshTid hfresh, hd⟩⟩

section trace

variable {ds : List System.Event}

theorem lost_of_trace (h : (refinement cfg n).Trace es s ds) :
    System.lost (cfg.system n) ds = lost cfg es := by
  apply h.outputs_of_restrict
  . intro s e hsilent
    exact hsilent.1
  . intro s e d hmeans
    exact Means.losesFrom hmeans

theorem futures_of_trace (h : (refinement cfg n).Trace es s ds) :
    System.futures (cfg.system n) ds = futures cfg es := by
  apply h.outputs_of_restrict
  . intro s e hsilent
    exact hsilent.2
  . intro s e d hmeans
    exact Means.futureIn hmeans

theorem scheduledFor_of_trace (h : (refinement cfg n).Trace es s ds) {promise : Nat}
    {am : Msg.ActivationMessage} {i : Invocation}
    (hsent : System.SentFor (cfg.system n) ds promise am i) :
    ScheduledFor cfg es promise am i := by
  rcases hsent with ⟨before, env, code, s', hbefore, hs', hclock, hi⟩
  rcases h.occurs hbefore with ⟨es₀, e, s₀, hes, hrun, hview, hmeans⟩
  cases hs'.symm.trans (Machine.runFrom_of_restrict hview)
  cases hmeans with
  | system => exact ⟨es₀, env, code, s₀, hes, Machine.runFrom_of_restrict hrun, hclock, hi⟩

theorem executedFor_of_trace (h : (refinement cfg n).Trace es s ds) {i : Invocation} {exec : ExecStats}
    {res : CString} (hreplied : System.RepliedTo (cfg.system n) ds i exec res) :
    ExecutedFor cfg es i exec res := by
  rcases hreplied with ⟨before, j, s', hbefore, hs', hi⟩
  rcases h.occurs hbefore with ⟨es₀, e, s₀, hes, hrun, hview, hmeans⟩
  cases hs'.symm.trans (Machine.runFrom_of_restrict hview)
  cases hmeans with
  | system houtside => cases houtside
  | @sendReply c k _ _ _ a ha hj =>
    have hinvocation := Option.some.inj (hj.symm.trans hi)
    exact ⟨es₀, c, k, s₀, a, hes, Machine.runFrom_of_restrict hrun, ha, hinvocation⟩

theorem nodup_of_trace (h : (refinement cfg n).Trace es s ds) :
    (s.hosted.fulfilled.map Controller.Fulfilled.promise).Nodup := by
  have hpromises := System.promises_of_run h.view_run
  have hnodup := (System.futures_nodup (Machine.runFrom_of_restrict h.view_run)).1
  exact (List.nodup_append.mp (hpromises.nodup_iff.mpr hnodup)).1

theorem answered_of_trace (h : (refinement cfg n).Trace es s ds) (f : Controller.Fulfilled)
    (hf : f ∈ s.hosted.fulfilled) :
    ∃ am i exec res, ScheduledFor cfg es f.promise am i
      ∧ ExecutedFor cfg es i exec res
      ∧ Controller.Carries f.message am { i.info with argsSize := res.length, exec := exec } res := by
  have hcompletes := (System.answered_of_run h.view_run).fulfilled f hf
  rcases hcompletes with ⟨am, i, exec, res, hsent, hreplied, hcarries⟩
  exact ⟨am, i, exec, res, scheduledFor_of_trace h hsent, executedFor_of_trace h hreplied, hcarries⟩

end trace

/--
In every run in which no invocation is replied to twice, the system with the whole node is in a state that the
system without it gets to, with the same futures returned and the same messages lost. So no future is
fulfilled twice, and each one that is fulfilled carries the data of its activation and a result that a
session has executed for the invocation which was sent for it.
-/
theorem refines (h : ((machine cfg n).restrict (Once cfg)).run es = some s) :
    (∃ ds, ((System.machine (cfg.system n)).restrict (System.FreshTid (cfg.system n))).run ds = some s.view
        ∧ System.lost (cfg.system n) ds = lost cfg es
        ∧ System.futures (cfg.system n) ds = futures cfg es)
      ∧ (s.hosted.fulfilled.map Controller.Fulfilled.promise).Nodup
      ∧ ∀ f ∈ s.hosted.fulfilled, ∃ am i exec res, ScheduledFor cfg es f.promise am i
        ∧ ExecutedFor cfg es i exec res
        ∧ Controller.Carries f.message am { i.info with argsSize := res.length, exec := exec } res := by
  rcases (refinement cfg n).exists_trace h with ⟨ds, htrace⟩
  exact ⟨⟨ds, htrace.view_run, lost_of_trace htrace, futures_of_trace htrace⟩, nodup_of_trace htrace,
    answered_of_trace htrace⟩

end run

def exampleConfig : Config where
  hash := (·.length.toUInt64)
  hostedBuild := .debug
  nativeBuild := .release
  limit := 2
  hotLimit := 1
  reuseLimit := 300

-- Two activations are on their way, the first of them in a cold start.
def underway (mine c : Fin 2) : List (Event 2) :=
  let env : Controller.ScheduleEnv :=
    { getAction := fun _ => "code".toList, now := 0, beyond := fun _ => 'x' }
  [
    .system (.registerNode 4 "10.0.0.2".toList),
    .system (.scheduleActivation env (Msg.testActivation "a".toList "r".toList) []),
    .system (.scheduleActivation env (Msg.testActivation "bb".toList "r".toList) []),
    .system (.sendRequest 0),
    .receiveRequest mine 0,
    .node (.poke c),
    .node (.attempt c 0 0 fun _ => true),
    .node (.attempt c 0 0 fun _ => true),
    .node (.attempt c 0 4 fun _ => true)
  ]

def answered (mine c : Fin 2) : List (Event 2) :=
  let uninit : Msg.CompletionMessage :=
    .ofActivation ⟨⟨[], 0⟩, { statusCode := 0 }, ⟨0, []⟩⟩ (Msg.testActivation [] [])
  underway mine c ++ [
    .executed c 0 .zero "[1]".toList,
    .system (.receiveReply 0 uninit 9000000),
    .node (.closed c 0 0 fun _ => true)
  ]

theorem answered_run :
    (((machine exampleConfig 2).restrict (Once exampleConfig)).run (answered 0 1)).isSome := by
  decide

theorem refines_answered :
    ∃ s, ((machine exampleConfig 2).restrict (Once exampleConfig)).run (answered 0 1) = some s
      ∧ s.hosted.fulfilled.map (fun f => (f.promise, f.message.response.result)) = [(1, "[1]".toList)]
      ∧ ∃ ds, ((System.machine (exampleConfig.system 2)).restrict
          (System.FreshTid (exampleConfig.system 2))).run ds = some s.view
        ∧ System.futures (exampleConfig.system 2) ds = futures exampleConfig (answered 0 1) := by
  have hrun := (Option.some_get answered_run).symm
  rcases (refines hrun).1 with ⟨ds, hds, _, hfutures⟩
  exact ⟨_, hrun, by decide, ds, hds, hfutures⟩

end FullStack
end Seuss
