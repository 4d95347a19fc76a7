import Seuss.FullStack.Refinement

/-!
This module contains the progress of the whole stack: where sessions end in order, every activation is
completed after a bounded number of further events, whatever their order, unless one of its messages was
lost before.
-/

namespace Seuss
namespace FullStack

open InvokerNode

variable {cfg : Config} {n : Nat}

/--
The transaction id of the activation is neither outstanding nor that of an invocation still on a core.
-/
def UnusedTid (cfg : Config) (s : State n) (am : Msg.ActivationMessage) : Prop :=
  s.hosted.controller.recordMap.find? (Controller.tid cfg.hash am) = none
    ∧ ∀ c, ∀ a ∈ s.node.active c, a.invocation.info.transactionId ≠ Controller.tid cfg.hash am

instance (s : State n) (am : Msg.ActivationMessage) : Decidable (UnusedTid cfg s am) :=
  inferInstanceAs (Decidable (_ ∧ _))

/--
Transaction ids are unique among all that is in flight, and a session is executed once, before it is closed.
It is aborted only while the reply is still due.
-/
def Orderly (cfg : Config) (s : State n) (e : Event n) : Prop :=
  match e with
  | .system (.scheduleActivation _ am _) => UnusedTid cfg s am
  | .executed c k _ _ => ∀ a ∈ (s.node.active c)[k]?, a.invocation ∈ s.owed
  | .node (.closed c k _ _) => ∀ a ∈ (s.node.active c)[k]?, a.invocation ∉ s.owed
  | .node (.aborted c k _) => ∀ a ∈ (s.node.active c)[k]?, a.invocation ∈ s.owed
  | _ => True

instance (s : State n) (e : Event n) : Decidable (Orderly cfg s e) := by
  unfold Orderly
  split <;> infer_instance

-- An event that brings a completion nearer.
def Productive (s : State n) (e : Event n) : Prop :=
  match e with
  | .system (.sendRequest _) | .system (.receiveReply _ _ _) => True
  | .system _ => False
  | .node e => Progresses s.node e
  | .receiveRequest _ _ | .executed _ _ _ _ => True

instance (s : State n) (e : Event n) : Decidable (Productive s e) := by
  unfold Productive
  split <;> infer_instance

def carries (tid : UInt64) (a : Active) : Nat :=
  if a.invocation.info.transactionId = tid then 1 else 0

-- No session of the invocation has been executed.
def Stage.owes (stage : Stage) : Bool :=
  match stage with
  | .trying _ | .failed => true
  | .blocked _ _ | .finished => false

def owing (i : Invocation) (a : Active) : Nat :=
  if a.invocation = i ∧ Stage.owes a.stage = true then 1 else 0

def ended (i : Invocation) (a : Active) : Nat :=
  if a.invocation = i ∧ a.stage = .finished then 1 else 0

/--
What is not executed yet is owed, and what is owed is in flight and not finished.
-/
structure Due (active : Fin n → List Active) (owed : List Invocation) : Prop where
  unexecuted : ∀ i, Tally.tally (owing i) active ≤ owed.count i
  inFlight : ∀ i, owed.count i + Tally.tally (ended i) active ≤ Tally.tally (isFor i) active

section due

variable {active : Fin n → List Active} {owed : List Invocation} {c : Fin n} {k : Nat} {a : Active}
  {stage : Stage} {i : Invocation}

theorem owing_add_ended_le (i : Invocation) (a : Active) : owing i a + ended i a ≤ isFor i a := by
  unfold owing ended isFor
  cases a.stage <;> simp [Stage.owes]

theorem owing_le (i : Invocation) (a : Active) : owing i a ≤ isFor i a :=
  Nat.le_trans (Nat.le_add_right _ _) (owing_add_ended_le i a)

theorem ended_le (i : Invocation) (a : Active) : ended i a ≤ isFor i a :=
  Nat.le_trans (Nat.le_add_left _ _) (owing_add_ended_le i a)

theorem Due.new : Due (fun _ : Fin n => []) [] := by
  have hzero (f : Active → Nat) : Tally.tally f (fun _ : Fin n => []) = 0 :=
    Tally.tally_eq_zero fun _ _ h => absurd h List.not_mem_nil
  constructor
  . intro i
    rw [hzero]
    exact Nat.zero_le _
  . intro i
    rw [hzero, hzero]
    rfl

theorem Due.setStage (h : Due active owed) (ha : (active c)[k]? = some a)
    (howes : Stage.owes stage = true → Stage.owes a.stage = true)
    (hended : stage = .finished → a.stage = .finished) :
    Due (Function.update active c ((active c).set k { a with stage := stage })) owed := by
  constructor
  . intro i
    have hset := Tally.tally_set (f := owing i) ha { a with stage := stage }
    have hle : owing i { a with stage := stage } ≤ owing i a := by
      unfold owing
      split
      . next hnew => rw [if_pos ⟨hnew.1, howes hnew.2⟩]
      . exact Nat.zero_le _
    have := h.unexecuted i
    omega
  . intro i
    have hset := Tally.tally_set (f := ended i) ha { a with stage := stage }
    have hsame := Tally.tally_set (f := isFor i) ha { a with stage := stage }
    have hle : ended i { a with stage := stage } ≤ ended i a := by
      unfold ended
      split
      . next hnew => rw [if_pos ⟨hnew.1, hended hnew.2⟩]
      . exact Nat.zero_le _
    have hfor : isFor i { a with stage := stage } = isFor i a := rfl
    have := h.inFlight i
    omega

theorem Due.enter (h : Due active owed) (c : Fin n) (i : Invocation) :
    Due (Function.update active c (active c ++ [{ invocation := i, stage := .trying .hot }]))
      (owed ++ [i]) := by
  constructor
  . intro j
    rw [Tally.tally_put, List.count_append, List.count_singleton]
    have := h.unexecuted j
    simp only [Tally.weight_cons, Tally.weight_nil, owing, Stage.owes, beq_iff_eq]
    simp only [and_true]
    omega
  . intro j
    rw [Tally.tally_put, Tally.tally_put, List.count_append, List.count_singleton]
    have := h.inFlight j
    simp only [Tally.weight_cons, Tally.weight_nil, ended, isFor, beq_iff_eq]
    simp only [reduceCtorEq, and_false, ↓reduceIte]
    omega

theorem Due.leave (h : Due active owed) (ha : (active c)[k]? = some a) (hstage : a.stage = .finished) :
    Due (Function.update active c ((active c).eraseIdx k)) owed := by
  constructor
  . intro i
    have htake := Tally.tally_take (f := owing i) ha
    have := h.unexecuted i
    omega
  . intro i
    have htake := Tally.tally_take (f := ended i) ha
    have htake' := Tally.tally_take (f := isFor i) ha
    have := h.inFlight i
    simp only [ended, isFor, hstage, and_true] at htake htake'
    omega

variable {path : Deployment.StartPath} {umiId : Invoker.UmiId}

theorem owing_blocked (hstage : a.stage = .blocked path umiId) (i : Invocation) : owing i a = 0 := by
  unfold owing
  rw [hstage]
  simp [Stage.owes]

theorem ended_blocked (hstage : a.stage = .blocked path umiId) (i : Invocation) : ended i a = 0 := by
  unfold ended
  rw [hstage]
  simp

-- The invocation has no other place where it could be owed.
theorem owing_eq_zero (ha : (active c)[k]? = some a) (hstage : a.stage = .blocked path umiId)
    (hunique : Tally.tally (isFor a.invocation) active ≤ 1) :
    Tally.tally (owing a.invocation) active = 0 := by
  have htake := Tally.tally_take (f := owing a.invocation) ha
  have htake' := Tally.tally_take (f := isFor a.invocation) ha
  have hle : Tally.tally (owing a.invocation) (Function.update active c ((active c).eraseIdx k))
      ≤ Tally.tally (isFor a.invocation) (Function.update active c ((active c).eraseIdx k)) :=
    Tally.tally_mono (owing_le _)
  have hself : isFor a.invocation a = 1 := if_pos rfl
  rw [owing_blocked hstage] at htake
  omega

theorem Due.close (h : Due active owed) (ha : (active c)[k]? = some a)
    (hstage : a.stage = .blocked path umiId) (hnone : a.invocation ∉ owed) :
    Due (Function.update active c ((active c).set k { a with stage := .finished })) owed := by
  constructor
  . intro i
    have hset := Tally.tally_set (f := owing i) ha { a with stage := .finished }
    have hnew : owing i { a with stage := .finished } = 0 := by
      simp [owing, Stage.owes]
    have := h.unexecuted i
    omega
  . intro i
    have hset := Tally.tally_set (f := ended i) ha { a with stage := .finished }
    have hsame := Tally.tally_set (f := isFor i) ha { a with stage := .finished }
    have hfor : isFor i { a with stage := .finished } = isFor i a := rfl
    have hnew : ended i { a with stage := .finished } = isFor i a := by
      simp [ended, isFor]
    have hle : Tally.tally (ended i) (Function.update active c ((active c).eraseIdx k))
        ≤ Tally.tally (isFor i) (Function.update active c ((active c).eraseIdx k)) :=
      Tally.tally_mono (ended_le i)
    have htake := Tally.tally_take (f := ended i) ha
    have htake' := Tally.tally_take (f := isFor i) ha
    have hblocked := ended_blocked hstage i
    have := h.inFlight i
    by_cases hi : a.invocation = i
    . rw [hi] at hnone
      rw [List.count_eq_zero_of_not_mem hnone] at *
      omega
    . have hother : isFor i a = 0 := if_neg hi
      omega

theorem Due.abort (h : Due active owed) (ha : (active c)[k]? = some a)
    (hstage : a.stage = .blocked path umiId) (howed : a.invocation ∈ owed)
    (hunique : Tally.tally (isFor a.invocation) active ≤ 1) (hnew : stage ≠ .finished) :
    Due (Function.update active c ((active c).set k { a with stage := stage })) owed := by
  constructor
  . intro i
    have hset := Tally.tally_set (f := owing i) ha { a with stage := stage }
    by_cases hi : a.invocation = i
    . subst hi
      have hzero := owing_eq_zero ha hstage hunique
      have hpos := List.count_pos_iff.mpr howed
      have hle := owing_le a.invocation { a with stage := stage }
      have hself : isFor a.invocation { a with stage := stage } = 1 := if_pos rfl
      omega
    . have hother : owing i { a with stage := stage } = 0 := if_neg fun hand => hi hand.1
      have := h.unexecuted i
      omega
  . intro i
    have hset := Tally.tally_set (f := ended i) ha { a with stage := stage }
    have hsame := Tally.tally_set (f := isFor i) ha { a with stage := stage }
    have hfor : isFor i { a with stage := stage } = isFor i a := rfl
    have hended : ended i { a with stage := stage } = 0 := if_neg fun hand => hnew hand.2
    have := h.inFlight i
    omega

theorem Due.execute (h : Due active owed) (ha : (active c)[k]? = some a)
    (hstage : a.stage = .blocked path umiId)
    (hunique : Tally.tally (isFor a.invocation) active ≤ 1) :
    Due active (owed.erase a.invocation) := by
  constructor
  . intro i
    by_cases hi : a.invocation = i
    . subst hi
      rw [owing_eq_zero ha hstage hunique]
      exact Nat.zero_le _
    . rw [List.count_erase_of_ne (Ne.symm hi)]
      exact h.unexecuted i
  . intro i
    have hle := (List.erase_sublist (a := a.invocation) (l := owed)).count_le i
    have := h.inFlight i
    omega

end due

-- the places of a transaction until its invocation leaves its core
def State.pending (s : State n) (tid : UInt64) : Nat :=
  (s.hosted.spawned.map (·.stats.transactionId)).count tid
    + (s.requests.map (·.header.record.transactionId)).count tid
    + s.node.node.root.requestQueue.count tid
    + Tally.tally (carries tid) s.node.active

structure Inv (s : State n) : Prop where
  system : System.Inv s.view
  queued : Queued s.node.node.root
  unique : ∀ tid, s.pending tid ≤ 1
  due : Due s.node.active s.owed

section step

variable {s t : State n} {e : Event n}

theorem once_of_orderly (h : Orderly cfg s e) : Once cfg s e := by
  cases e with
  | system e =>
    cases e with
    | scheduleActivation env am code => exact ⟨Option.isNone_iff_eq_none.mpr h.1, trivial⟩
    | _ => exact ⟨trivial, trivial⟩
  | executed c k exec res => exact ⟨trivial, h⟩
  | _ => exact ⟨trivial, trivial⟩

theorem Inv.new : Inv (State.new cfg n) where
  system := .new
  queued := ⟨rfl, .refl _⟩
  unique := by
    intro tid
    have hzero : Tally.tally (carries tid) (State.new cfg n).node.active = 0 :=
      Tally.tally_eq_zero fun _ _ h => absurd h List.not_mem_nil
    unfold State.pending
    rw [hzero]
    exact Nat.zero_le _
  due := .new

theorem Inv.isFor_le (h : Inv s) (i : Invocation) : Tally.tally (isFor i) s.node.active ≤ 1 := by
  have hle : Tally.tally (isFor i) s.node.active
      ≤ Tally.tally (carries i.info.transactionId) s.node.active := by
    apply Tally.tally_mono
    intro a
    unfold isFor carries
    split
    . next hi => rw [hi, if_pos rfl]
    . exact Nat.zero_le _
  have hunique := h.unique i.info.transactionId
  unfold State.pending at hunique
  omega

theorem entered_of_poke {before after : Invoker.Core} {is : List Invocation}
    (h : after.inflight = before.inflight ++ is) :
    entered before after = is.map fun i => { invocation := i, stage := .trying .hot } := by
  unfold entered
  rw [h, List.drop_left]

theorem Inv.due_poke {c : Fin n} {node : Invoker.Node n} (h : Inv s)
    (hpoke : s.node.node.step cfg.nativeBuild cfg.limit (.poke c) = some (.ok node)) :
    Due (s.node.poked c node).active
      (s.owed ++ (taken s.node (s.node.poked c node) (.poke c)).map Prod.snd) := by
  rcases step_poke_eq_ok hpoke with ⟨_, hinflight⟩ | ⟨i, _, hinflight⟩
  . have hnone : (node.cores c).inflight = (s.node.node.cores c).inflight ++ [] := by
      rw [hinflight, List.append_nil]
    have htaken : taken s.node (s.node.poked c node) (.poke c) = [] :=
      taken_of_poke (l := []) hnone
    have hactive : (s.node.poked c node).active = s.node.active := by
      dsimp only [InvokerNode.State.poked]
      rw [entered_of_poke hnone, List.map_nil, List.append_nil, Function.update_eq_self]
    rw [htaken, hactive, List.map_nil, List.append_nil]
    exact h.due
  . have htaken : taken s.node (s.node.poked c node) (.poke c) = [(c.val, i)] :=
      taken_of_poke (l := [i]) hinflight
    have hactive : (s.node.poked c node).active = Function.update s.node.active c
        (s.node.active c ++ [{ invocation := i, stage := .trying .hot }]) := by
      dsimp only [InvokerNode.State.poked]
      rw [entered_of_poke hinflight]
      rfl
    rw [htaken, hactive]
    exact h.due.enter c i

theorem Inv.due_node {e : InvokerNode.Event n} {node : InvokerNode.State n} (h : Inv s)
    (horderly : Orderly cfg s (.node e)) (hnode : (cfg.node n).step s.node e = some node) :
    Due node.active (s.owed ++ (taken s.node node e).map Prod.snd) := by
  cases InvokerNode.happens_of_step hnode with
  | poke c node' hpoke => exact h.due_poke hpoke
  | addWork | captured | signalHalt =>
    dsimp only [taken]
    rw [List.map_nil, List.append_nil]
    exact h.due
  | hotMissed c k a umiId managed idle ha hstage
  | hotStarted c k a umiId managed idle session ha hstage
  | warmMissed c k a umiId managed ha hstage
  | warmStarted c k a umiId managed idle ha hstage
  | coldStarted c k a umiId managed idle ha hstage =>
    dsimp only [taken]
    rw [List.map_nil, List.append_nil]
    apply h.due.setStage ha
    . intro _
      rw [hstage]
      rfl
    . intro hfinished
      cases hfinished
  | closed c k j managed a path session idle ha hstage =>
    dsimp only [taken]
    rw [List.map_nil, List.append_nil]
    exact h.due.close ha hstage (horderly a ha)
  | aborted c k j a path session idle ha hstage =>
    dsimp only [taken]
    rw [List.map_nil, List.append_nil]
    apply h.due.abort ha hstage (horderly a ha) (h.isFor_le _)
    cases path <;> exact fun hnext => nomatch hnext
  | leave c k a node' ha hstage =>
    dsimp only [taken]
    rw [List.map_nil, List.append_nil]
    exact h.due.leave ha hstage

theorem Inv.due_step (h : Inv s) (horderly : Orderly cfg s e) (hs : (machine cfg n).step s e = some t) :
    Due t.node.active t.owed := by
  cases happens_of_step hs with
  | system | ignored => exact h.due
  | queued buf i node hbuf hreceive hnode =>
    cases InvokerNode.happens_of_step hnode with
    | addWork => exact h.due
  | node node hother hnode => exact h.due_node horderly hnode
  | executed a path umiId buf ha hstage hsend => exact h.due.execute ha hstage (h.isFor_le _)

theorem carries_setStage {c : Fin n} {k : Nat} {a : Active} {active : Fin n → List Active}
    (ha : (active c)[k]? = some a) (tid : UInt64) (stage : Stage) :
    Tally.tally (carries tid) (Function.update active c ((active c).set k { a with stage := stage }))
      = Tally.tally (carries tid) active :=
  Nat.add_right_cancel (Tally.tally_set (f := carries tid) ha { a with stage := stage })

theorem Inv.waiting_poke {c : Fin n} {node : Invoker.Node n} (h : Inv s)
    (hpoke : s.node.node.step cfg.nativeBuild cfg.limit (.poke c) = some (.ok node)) (tid : UInt64) :
    node.root.requestQueue.count tid + Tally.tally (carries tid) (s.node.poked c node).active
      = s.node.node.root.requestQueue.count tid + Tally.tally (carries tid) s.node.active := by
  dsimp only [InvokerNode.State.poked]
  rw [Tally.tally_put]
  rcases step_poke_eq_ok hpoke with ⟨hroot, hinflight⟩ | ⟨i, hwork, hinflight⟩
  . have hnone : (node.cores c).inflight = (s.node.node.cores c).inflight ++ [] := by
      rw [hinflight, List.append_nil]
    rw [entered_of_poke hnone, hroot]
    rfl
  . rcases InvokerRoot.getWork_eq_some hwork with ⟨tid', hqueue, hfind, _⟩
    have hkeyed : i.info.transactionId = tid' := h.system.keyed tid' i hfind
    rw [entered_of_poke hinflight, hqueue, List.count_cons]
    simp only [List.map_cons, List.map_nil, Tally.weight_cons, Tally.weight_nil, carries, hkeyed,
      beq_iff_eq]
    omega

-- Work is only moved on the node, or leaves it.
theorem Inv.waiting_node {e : InvokerNode.Event n} {node : InvokerNode.State n} (h : Inv s)
    (hother : ∀ mine i, e ≠ .addWork mine i) (hnode : (cfg.node n).step s.node e = some node)
    (tid : UInt64) :
    node.node.root.requestQueue.count tid + Tally.tally (carries tid) node.active
      ≤ s.node.node.root.requestQueue.count tid + Tally.tally (carries tid) s.node.active := by
  cases InvokerNode.happens_of_step hnode with
  | addWork => exact absurd rfl (hother _ _)
  | poke c node' hpoke => exact Nat.le_of_eq (h.waiting_poke hpoke tid)
  | captured k sv checkpoint root fate hk hroot =>
    have hcache := congrArg InvokerRoot.requestQueue (withoutCache_setSnapshot hroot)
    have hqueue : root.requestQueue = s.node.node.root.requestQueue := hcache
    dsimp only [InvokerNode.State.captured]
    rw [hqueue]
  | signalHalt => exact Nat.le_refl _
  | hotMissed c k a _ _ _ ha | hotStarted c k a _ _ _ _ ha | warmMissed c k a _ _ ha
  | warmStarted c k a _ _ _ ha | coldStarted c k a _ _ _ ha | closed c k _ _ a _ _ _ ha
  | aborted c k _ a _ _ _ ha => exact Nat.le_of_eq (congrArg _ (carries_setStage ha tid _))
  | leave c k a node' ha hstage hleave =>
    have hstep : (Invoker.machine cfg.nativeBuild cfg.limit n).step s.node.node (.leave c k) = some node' :=
      Invoker.machine_step.mpr hleave
    have htake := Tally.tally_take (f := carries tid) ha
    dsimp only [InvokerNode.State.left]
    rw [(Invoker.step_leave hstep).2.1]
    omega

theorem Inv.unique_system {e : System.Event} {sys : System.State} (h : Inv s)
    (horderly : Orderly cfg s (.system e)) (houtside : outside e = true)
    (hs : (System.machine (cfg.system n)).step s.view e = some sys) (tid : UInt64) :
    (sys.hosted.spawned.map (·.stats.transactionId)).count tid
      + (sys.requests.map (·.header.record.transactionId)).count tid
      + s.node.node.root.requestQueue.count tid
      + Tally.tally (carries tid) s.node.active ≤ 1 := by
  have hunique := h.unique tid
  unfold State.pending at hunique
  rw [System.machine_step] at hs
  cases System.happens_of_step hs with
  | receiveRequest | idle | getWork | sendReply => cases houtside
  | registerNode hosted hstep =>
    cases hstep
    exact hunique
  | @scheduleActivation env am code hosted hstep =>
    have hnone : s.view.hosted.controller.recordMap.find? (Controller.tid cfg.hash am) = none :=
      horderly.1
    rcases Controller.State.step_scheduleActivation_spawned hstep with ⟨event, hspawned, hstats, _⟩
    have htid : event.stats.transactionId = Controller.tid cfg.hash am := by
      rw [hstats]
      rfl
    dsimp only
    rw [hspawned, Pool.count_put, htid]
    by_cases heq : Controller.tid cfg.hash am = tid
    . subst heq
      have hplaces := h.system.places (Controller.tid cfg.hash am)
      rw [System.State.recorded_of_none hnone] at hplaces
      have hactive : Tally.tally (carries (Controller.tid cfg.hash am)) s.node.active = 0 :=
        Tally.tally_eq_zero fun c a ha => if_neg (horderly.2 c a ha)
      rw [hactive, if_pos rfl]
      unfold System.State.places State.view at hplaces
      dsimp only [withoutCache] at hplaces
      dsimp only [State.view]
      omega
    . rw [if_neg heq]
      exact hunique
  | sendRequest event buf hevent hsend =>
    have htake := Pool.count_take (·.stats.transactionId) hevent tid
    have hheader : buf.header.record.transactionId = event.stats.transactionId := by
      rw [SeussChannel.sendRequest_eq] at hsend
      cases hsend
      rfl
    dsimp only
    rw [Pool.count_put, hheader]
    dsimp only [State.view] at htake ⊢
    omega
  | loseRequest buf hbuf =>
    have htake := Pool.count_take (·.header.record.transactionId) hbuf tid
    dsimp only [State.view] at htake ⊢
    omega
  | loseReply buf hbuf => exact hunique
  | receiveReply buf received hbuf hreceive hresolve =>
    rcases System.resolveReceived_cases hresolve with ⟨clock, _, rfl, _⟩ | ⟨_, _, _, _, _, rfl⟩
    . exact hunique
    . exact hunique

theorem Inv.unique_queued {k : Nat} {mine : Fin n} {buf : IOBuf} {i : Invocation} {node : Invoker.Node n}
    (h : Inv s) (hbuf : s.requests[k]? = some buf)
    (hreceive : SeussChannel.receiveMessage .native cfg.nativeBuild buf = .ok (.queue i))
    (hadd : s.node.node.step cfg.nativeBuild cfg.limit (.addWork mine i) = some (.ok node)) (tid : UInt64) :
    (s.hosted.spawned.map (·.stats.transactionId)).count tid
      + ((s.requests.eraseIdx k).map (·.header.record.transactionId)).count tid
      + node.root.requestQueue.count tid
      + Tally.tally (carries tid) s.node.active ≤ 1 := by
  have hunique := h.unique tid
  unfold State.pending at hunique
  rcases h.system.receiveMessage_request hbuf cfg.nativeBuild with ⟨i', hreceive', htid⟩
  cases hreceive.symm.trans hreceive'
  rcases step_addWork_eq_ok hadd with ⟨pokes, hadd⟩
  have htake := Pool.count_take (·.header.record.transactionId) hbuf tid
  rw [← htid] at htake
  rw [(InvokerRoot.addWork_eq_ok hadd).1, List.count_append, List.count_singleton]
  simp only [beq_iff_eq]
  omega

theorem Inv.unique_step (h : Inv s) (horderly : Orderly cfg s e)
    (hs : (machine cfg n).step s e = some t) (tid : UInt64) : t.pending tid ≤ 1 := by
  have hunique := h.unique tid
  cases happens_of_step hs with
  | system sys houtside hstep => exact h.unique_system horderly houtside hstep tid
  | queued buf i node hbuf hreceive hnode =>
    cases InvokerNode.happens_of_step hnode with
    | addWork _ _ node' hadd => exact h.unique_queued hbuf hreceive hadd tid
  | ignored buf received hbuf hreceive hother =>
    have htake := Pool.count_take (·.header.record.transactionId) hbuf tid
    unfold State.pending at hunique ⊢
    dsimp only
    omega
  | node node hother hnode =>
    have hwaiting := h.waiting_node hother hnode tid
    unfold State.pending at hunique ⊢
    dsimp only
    omega
  | executed => exact hunique

theorem Inv.queued_step (h : Inv s) (hs : (machine cfg n).step s e = some t) :
    Queued t.node.node.root := by
  cases happens_of_step hs with
  | system | ignored | executed => exact h.queued
  | @queued mine k buf i node hbuf hreceive hnode =>
    rcases h.system.receiveMessage_request hbuf cfg.nativeBuild with ⟨i', hreceive', htid⟩
    cases hreceive.symm.trans hreceive'
    have hnone := h.system.not_queued_of_request hbuf
    rw [← htid] at hnone
    have hfresh : FreshWork s.node (.addWork mine i) := hnone
    exact (holds_of_happens h.queued hfresh (InvokerNode.happens_of_step hnode)).1
  | @node e node hother hnode =>
    have hfresh : FreshWork s.node e := by
      cases e with
      | addWork => exact absurd rfl (hother _ _)
      | _ => trivial
    exact (holds_of_happens h.queued hfresh (InvokerNode.happens_of_step hnode)).1

theorem Inv.step (h : Inv s) (horderly : Orderly cfg s e) (hs : (machine cfg n).step s e = some t) :
    Inv t where
  system := by
    cases matched_of_step (once_of_orderly horderly).2 hs with
    | silent hview =>
      rw [hview]
      exact h.system
    | step d hmeans hstep =>
      exact h.system.step (hmeans.freshTid (once_of_orderly horderly).1) (System.machine_step.mp hstep)
  queued := h.queued_step hs
  unique := h.unique_step horderly hs
  due := h.due_step horderly hs

theorem inv_of_run {es : List (Event n)} (h : ((machine cfg n).restrict (Orderly cfg)).run es = some s) :
    Inv s := by
  refine Machine.run_induction _ (P := fun _ s => Inv s) .new ?_ h
  intro es s e t _ hinv hstep
  rw [Machine.restrict_step] at hstep
  exact hinv.step hstep.1 hstep.2

theorem node_run {es : List (Event n)} (h : (machine cfg n).run es = some s) :
    (cfg.node n).Reachable s.node := by
  have hreachable : (machine cfg n).Reachable s := ⟨es, h⟩
  refine hreachable.project (fun s => s.node) (Machine.reachable_init _) ?_
  intro s e t hs
  cases happens_of_step hs with
  | system | ignored | executed => exact .inl rfl
  | queued buf i node hbuf hreceive hnode => exact .inr ⟨_, hnode⟩
  | node node hother hnode => exact .inr ⟨_, hnode⟩

end step

-- how many productive events all that is on its way is away from its completion, at most
def State.distance (s : State n) : Nat :=
  (3 * (12 + n) + 2) * s.hosted.spawned.length + (3 * (12 + n) + 1) * s.requests.length
    + 3 * s.node.distance + 2 * s.owed.length + s.replies.length

section progress

variable {s t : State n} {e : Event n}

theorem length_pokedCores (mine : Nat) (tid : UInt64) :
    (InvokerRoot.pokedCores n mine tid).length ≤ n := by
  unfold InvokerRoot.pokedCores
  exact (List.length_filter_le _ _).trans (by simp)

theorem distance_addWork {node node' : InvokerNode.State n} {mine : Fin n} {i : Invocation}
    (h : (cfg.node n).step node (.addWork mine i) = some node') :
    node'.distance ≤ node.distance + 12 + n := by
  cases InvokerNode.happens_of_step h with
  | addWork _ _ root hadd =>
    have hstep : (Invoker.machine cfg.nativeBuild cfg.limit n).step node.node (.addWork mine i) = some root :=
      Invoker.machine_step.mpr hadd
    rcases Invoker.step_addWork hstep with ⟨hqueue, hcores⟩
    have hpoked := Tally.sum_count_le (Fin.val_injective (n := n))
      (InvokerRoot.pokedCores n mine i.info.transactionId)
    have hlength := length_pokedCores (n := n) mine i.info.transactionId
    unfold InvokerNode.State.distance InvokerNode.State.pokes InvokerNode.State.halts
    dsimp only
    rw [hqueue, hcores, List.length_append, List.length_singleton]
    simp only [Invoker.spawnPokes_pokes, Finset.sum_add_distrib]
    omega

theorem length_taken {node node' : InvokerNode.State n} {e : InvokerNode.Event n}
    (h : (cfg.node n).step node e = some node') : (taken node node' e).length ≤ 1 := by
  cases InvokerNode.happens_of_step h with
  | poke c node' hpoke =>
    rcases step_poke_eq_ok hpoke with ⟨_, hinflight⟩ | ⟨i, _, hinflight⟩
    . have hnone : taken node (node.poked c node') (.poke c) = [] :=
        taken_of_poke (l := []) (by rw [List.append_nil]; exact hinflight)
      rw [hnone]
      exact Nat.zero_le _
    . have hone : taken node (node.poked c node') (.poke c) = [(c.val, i)] :=
        taken_of_poke (l := [i]) hinflight
      rw [hone]
      exact Nat.le_refl _
  | _ => exact Nat.zero_le _

theorem Inv.distance_lt (h : Inv s) (hproductive : Productive s e) (hreplies : RepliesOnce s e)
    (hs : (machine cfg n).step s e = some t) : t.distance < s.distance := by
  unfold State.distance
  cases happens_of_step hs with
  | system sys houtside hstep =>
    rw [System.machine_step] at hstep
    cases System.happens_of_step hstep with
    | receiveRequest | idle | getWork | sendReply => cases houtside
    | registerNode | scheduleActivation | loseRequest | loseReply => cases hproductive
    | sendRequest event buf hevent hsend =>
      have hlength := Pool.length_take hevent
      dsimp only [State.view] at hlength ⊢
      rw [List.length_append, List.length_singleton, ← hlength, Nat.mul_add_one, Nat.mul_add_one]
      omega
    | receiveReply buf received hbuf hreceived hresolve =>
      have hlength := Pool.length_take hbuf
      rcases h.system.resolveReceived hbuf hreceived hresolve with ⟨_, _, _, _, _, rfl⟩
      dsimp only [State.view] at hlength ⊢
      omega
  | queued buf i node hbuf hreceive hnode =>
    have hlength := Pool.length_take hbuf
    have hdistance := distance_addWork hnode
    dsimp only
    rw [← hlength, Nat.mul_add_one]
    omega
  | ignored buf received hbuf hreceive hother =>
    have hlength := Pool.length_take hbuf
    dsimp only
    rw [← hlength, Nat.mul_add_one]
    omega
  | node node hother hnode =>
    have hdistance := distance_of_happens hproductive (InvokerNode.happens_of_step hnode)
    have hlength := length_taken hnode
    dsimp only
    rw [List.length_append, List.length_map]
    omega
  | executed a path umiId buf ha hstage hsend =>
    have hlength := List.length_erase_of_mem (hreplies a ha)
    have hpos := List.length_pos_of_mem (hreplies a ha)
    dsimp only
    rw [List.length_append, List.length_singleton, hlength]
    omega

-- What can still happen of itself, in order.
def Rest (cfg : Config) (s : State n) (e : Event n) : Prop :=
  Productive s e ∧ Orderly cfg s e

instance (s : State n) (e : Event n) : Decidable (Rest cfg s e) :=
  inferInstanceAs (Decidable (Productive s e ∧ Orderly cfg s e))

theorem decreases (h : Inv s) (hs : ((machine cfg n).restrict (Rest cfg)).step s e = some t) :
    Inv t ∧ t.distance < s.distance := by
  rw [Machine.restrict_step] at hs
  rcases hs with ⟨⟨hproductive, horderly⟩, hs⟩
  exact ⟨h.step horderly hs, h.distance_lt hproductive (once_of_orderly horderly).2 hs⟩

section stuck

variable {c : Fin n} {k : Nat} {a : Active} {path : Deployment.StartPath} {umiId : Invoker.UmiId}

theorem exists_step_system {e : System.Event} {sys : System.State} (houtside : outside e = true)
    (hs : s.view.step (cfg.system n) e = some (.ok sys)) : ∃ t, (machine cfg n).step s (.system e) = some t := by
  simp only [machine, State.stepSystem, if_pos houtside, System.machine_step.mpr hs]
  exact ⟨_, rfl⟩

theorem exists_step_node {e : InvokerNode.Event n} {node : InvokerNode.State n}
    (hother : ∀ mine i, e ≠ .addWork mine i) (hnode : (cfg.node n).step s.node e = some node) :
    ∃ t, (machine cfg n).step s (.node e) = some t := by
  cases e with
  | addWork => exact absurd rfl (hother _ _)
  | _ =>
    simp only [machine, State.stepNode, hnode]
    exact ⟨_, rfl⟩

theorem exists_step_executed (cfg : Config) (ha : (s.node.active c)[k]? = some a)
    (hstage : a.stage = .blocked path umiId) :
    ∃ t, (machine cfg n).step s (.executed c k .zero []) = some t := by
  simp only [machine, State.executed, ha, Option.bind_some, hstage, SeussChannel.sendReply_eq]
  exact ⟨_, rfl⟩

theorem saveHotInstance_release (hot : Invoker.HotInstances) (managed : Invoker.UmiId → Bool)
    (fid : UInt64) (umiId : Invoker.UmiId) :
    hot.saveHotInstance .release managed fid umiId ≠ .error .assertion := by
  have hreuse : ∃ b, hot.hotInstanceCanBeReused .release umiId = .ok b := by
    simp only [Invoker.HotInstances.hotInstanceCanBeReused, Build.kassert, bind, Except.bind]
    split
    . exact ⟨_, rfl⟩
    . split <;> exact ⟨_, rfl⟩
  rcases hreuse with ⟨b, hb⟩
  intro hsave
  simp only [Invoker.HotInstances.saveHotInstance, Build.kassert, bind, Except.bind, hb] at hsave
  split at hsave
  . cases hsave
  . split at hsave <;> cases hsave

-- The assertions of the invoker are compiled out.
theorem sessionClosed_release (idle : Invoker.Idle.State) (session : Invoker.Idle.OpenSession)
    (managed : Invoker.UmiId → Bool) :
    idle.sessionClosed .release session managed ≠ .error .assertion := by
  intro h
  simp only [Invoker.Idle.State.sessionClosed, bind, Except.bind] at h
  split at h
  . next hsave =>
    cases h
    exact saveHotInstance_release _ _ _ _ hsave
  . split at h <;> cases h

theorem exists_closed (limit : UInt16) (hinv : Invoker.Idle.Inv (s.node.idle c))
    (haligned : Aligned s.node) (ha : (s.node.active c)[k]? = some a)
    (hstage : a.stage = .blocked path umiId) :
    ∃ j node, s.node.step .release limit (.closed c k j fun _ => true) = some (.ok node) := by
  rcases haligned.exists_session ha hstage with ⟨j, session, hj, rfl⟩
  have hkeeps : (s.node.idle c).Keeps fun _ => true := fun _ _ _ => rfl
  rcases (hinv.sessionClosed_cases hj hkeeps).resolve_left (sessionClosed_release _ _ _)
    with ⟨idle, hidle, _⟩
  refine ⟨j, (s.node.setIdle c idle).setStage c k a .finished, ?_⟩
  rw [InvokerNode.State.step, InvokerNode.State.endSession, ha, Option.bind_some, hstage]
  simp only [hj, Option.map_some, ↓reduceIte, Invoker.Idle.State.step, if_pos hkeeps, hidle]
  rfl

theorem not_step_of_end (hend : ∀ e, ((machine cfg n).restrict (Rest cfg)).step s e = none)
    (hproductive : Productive s e) (horderly : Orderly cfg s e) :
    ¬ ∃ t, (machine cfg n).step s e = some t := by
  rintro ⟨t, ht⟩
  have hrest : Rest cfg s e := ⟨hproductive, horderly⟩
  have hstep := Machine.restrict_step.mpr ⟨hrest, ht⟩
  rw [hend e] at hstep
  cases hstep

/--
A session that is not executed yet can be executed, one that is can be closed.
-/
theorem not_blocked (h : (cfg.node n).Reachable s.node) (hrelease : cfg.nativeBuild = .release)
    (hend : ∀ e, ((machine cfg n).restrict (Rest cfg)).step s e = none)
    (ha : (s.node.active c)[k]? = some a) : a.stage ≠ .blocked path umiId := by
  intro hstage
  have hself : ∀ b ∈ (s.node.active c)[k]?, b = a := by
    intro b hb
    exact Option.some.inj (hb.symm.trans ha)
  by_cases howed : a.invocation ∈ s.owed
  . apply not_step_of_end hend (e := .executed c k .zero []) trivial _
      (exists_step_executed cfg ha hstage)
    intro b hb
    rw [hself b hb]
    exact howed
  . have hinv := (Invoker.Idle.Inv.of_reachable (idle_reachable h c)).1
    rcases exists_closed cfg.limit hinv (aligned_of_reachable h) ha hstage
      with ⟨j, node, hnode⟩
    rw [← hrelease] at hnode
    have hstep : (cfg.node n).step s.node (.closed c k j fun _ => true) = some node :=
      Machine.bind_toOption_eq_some.mpr hnode
    apply not_step_of_end hend (e := .node (.closed c k j fun _ => true)) trivial _
      (exists_step_node (fun _ _ he => nomatch he) hstep)
    intro b hb
    rw [hself b hb]
    exact howed

theorem node_end (h : (cfg.node n).Reachable s.node) (hrelease : cfg.nativeBuild = .release)
    (hend : ∀ e, ((machine cfg n).restrict (Rest cfg)).step s e = none) (e : InvokerNode.Event n) :
    ((cfg.node n).restrict Progresses).step s.node e = none := by
  cases hnode : ((cfg.node n).restrict Progresses).step s.node e with
  | none => rfl
  | some node =>
    exfalso
    rw [Machine.restrict_step] at hnode
    have hother : ∀ mine i, e ≠ .addWork mine i := by
      rintro mine i rfl
      exact hnode.1
    have hproductive : Productive s (.node e) := hnode.1
    have hstep := exists_step_node hother hnode.2
    cases InvokerNode.happens_of_step hnode.2 with
    | addWork => exact hnode.1
    | closed _ _ _ _ _ _ _ _ ha hstage => exact not_blocked h hrelease hend ha hstage
    | aborted _ _ _ _ _ _ _ ha hstage => exact not_blocked h hrelease hend ha hstage
    | _ => exact not_step_of_end hend hproductive trivial hstep

theorem spawned_of_end (hend : ∀ e, ((machine cfg n).restrict (Rest cfg)).step s e = none) :
    s.hosted.spawned = [] := by
  by_contra hne
  rcases List.exists_cons_of_ne_nil hne with ⟨event, rest, hcons⟩
  have hevent : s.view.hosted.spawned[0]? = some event := by
    rw [State.view, hcons]
    rfl
  rcases System.step_sendRequest (cfg.system n) hevent with ⟨sys, hstep⟩
  exact not_step_of_end hend (e := .system (.sendRequest 0)) trivial trivial
    (exists_step_system rfl hstep)

theorem Inv.replies_of_end (h : Inv s)
    (hend : ∀ e, ((machine cfg n).restrict (Rest cfg)).step s e = none) : s.replies = [] := by
  by_contra hne
  rcases List.exists_cons_of_ne_nil hne with ⟨buf, rest, hcons⟩
  have hbuf : s.view.replies[0]? = some buf := by
    rw [State.view, hcons]
    rfl
  have uninit : Msg.CompletionMessage := ⟨⟨[], 0⟩, { statusCode := 0 }, ⟨0, []⟩⟩
  rcases h.system.step_receiveReply (cfg.system n) hbuf uninit 0 with ⟨sys, hstep⟩
  exact not_step_of_end hend (e := .system (.receiveReply 0 uninit 0)) trivial trivial
    (exists_step_system rfl hstep)

theorem Inv.requests_of_end (h : Inv s) (mine : Fin n)
    (hend : ∀ e, ((machine cfg n).restrict (Rest cfg)).step s e = none) : s.requests = [] := by
  by_contra hne
  rcases List.exists_cons_of_ne_nil hne with ⟨buf, rest, hcons⟩
  have hbuf : s.requests[0]? = some buf := by
    rw [hcons]
    rfl
  rcases h.system.receiveMessage_request hbuf cfg.nativeBuild with ⟨i, hreceive, htid⟩
  have hnone : s.node.node.root.requestMap.find? i.info.transactionId = none := by
    rw [htid]
    exact h.system.not_queued_of_request hbuf
  apply not_step_of_end hend (e := .receiveRequest mine 0) trivial trivial
  simp only [machine, State.receiveRequest, hbuf, Option.bind_some, hreceive, Config.node,
    InvokerNode.machine, InvokerNode.State.step,
    Invoker.machine_step.mp (Invoker.step_addWork_of_not_queued hnone)]
  exact ⟨_, rfl⟩

/--
Where nothing in order can happen any more, no activation is on its way.
-/
theorem Inv.tids_of_end (h : Inv s) (hn : 2 ≤ n) (hlimit : 0 < cfg.limit)
    (hrelease : cfg.nativeBuild = .release) (hnode : (cfg.node n).Reachable s.node)
    (hend : ∀ e, ((machine cfg n).restrict (Rest cfg)).step s e = none)
    (hfailed : ∀ c, ∀ a ∈ s.node.active c, a.stage ≠ .failed) :
    AtRest s.node ∧ s.view.tids = [] := by
  have hrest := atRest_of_end hn hlimit hnode h.queued (node_end hnode hrelease hend) hfailed
  have howed : s.owed = [] := by
    rw [List.eq_nil_iff_forall_not_mem]
    intro i hi
    have hpos := List.count_pos_iff.mpr hi
    have hzero : Tally.tally (isFor i) s.node.active = 0 :=
      Tally.tally_eq_zero fun c a ha => by
        rw [hrest.active c] at ha
        cases ha
    have := h.due.inFlight i
    omega
  refine ⟨hrest, ?_⟩
  have hqueue : (withoutCache s.node.node.root).requestQueue = [] := hrest.queue
  have hrequests := h.requests_of_end ⟨0, by omega⟩ hend
  simp only [System.State.tids, State.view, spawned_of_end hend, h.replies_of_end hend, hrequests, howed,
    hqueue, List.map_nil, List.append_nil]

end stuck

section rest

variable {es es' : List (Event n)}

theorem losesFrom_of_rest (h : Rest cfg s e) : e.losesFrom s = [] := by
  cases e with
  | system e =>
    cases e with
    | loseRequest | loseReply => cases h.1
    | _ => rfl
  | _ => rfl

theorem futureIn_of_rest (h : Rest cfg s e) : e.futureIn s = [] := by
  cases e with
  | system e =>
    cases e with
    | scheduleActivation => cases h.1
    | _ => rfl
  | _ => rfl

theorem lost_of_rest (h : (machine cfg n).run es = some s)
    (hrest : ((machine cfg n).restrict (Rest cfg)).runFrom s es' = some t) :
    lost cfg (es ++ es') = lost cfg es := by
  have hrun : (machine cfg n).runFrom (.new cfg n) es = some s := h
  rw [lost, Machine.outputs_append hrun,
    Machine.outputs_eq_nil (fun _ _ => losesFrom_of_rest) hrest, List.append_nil]
  rfl

theorem futures_of_rest (h : (machine cfg n).run es = some s)
    (hrest : ((machine cfg n).restrict (Rest cfg)).runFrom s es' = some t) :
    futures cfg (es ++ es') = futures cfg es := by
  have hrun : (machine cfg n).runFrom (.new cfg n) es = some s := h
  rw [futures, Machine.outputs_append hrun,
    Machine.outputs_eq_nil (fun _ _ => futureIn_of_rest) hrest, List.append_nil]
  rfl

end rest

/--
From then on the whole stack comes to an end by itself, in at most `distance` events and in whatever order they
come. Then the node is at rest, and every activation is completed but those which have lost a message before,
unless all three start paths have failed for an invocation. In a debug build `kassert(fid)` could stop a
session of the function 0 for good.
-/
theorem comesToRest (hn : 2 ≤ n) (hlimit : 0 < cfg.limit) (hrelease : cfg.nativeBuild = .release)
    {es : List (Event n)} (h : ((machine cfg n).restrict (Orderly cfg)).run es = some s) :
    (∃ es' t, ((machine cfg n).restrict (Rest cfg)).runFrom s es' = some t
        ∧ ∀ e, ((machine cfg n).restrict (Rest cfg)).step t e = none)
      ∧ ∀ es' t, ((machine cfg n).restrict (Rest cfg)).runFrom s es' = some t →
        es'.length + t.distance ≤ s.distance
          ∧ ((∀ e, ((machine cfg n).restrict (Rest cfg)).step t e = none) →
            (∀ c, ∀ a ∈ t.node.active c, a.stage ≠ .failed) →
            AtRest t.node
              ∧ t.hosted.controller.recordMap.keys.Perm (lost cfg es)
              ∧ (lost cfg es = [] →
                (t.hosted.fulfilled.map Controller.Fulfilled.promise).Perm (futures cfg es))) := by
  have hinv := inv_of_run h
  refine ⟨Machine.exists_maximal_run (fun _ _ _ => decreases) s hinv, ?_⟩
  intro es' t hrest
  rcases Machine.length_le_of_decreasing (fun _ _ _ => decreases) hinv hrest with ⟨hinv', hlength⟩
  refine ⟨hlength, ?_⟩
  intro hend hfailed
  have hwhole : ((machine cfg n).restrict (Orderly cfg)).run (es ++ es') = some t := by
    rw [Machine.run, Machine.runFrom_append]
    exact ⟨s, h, Machine.restrict_mono (fun _ _ hboth => hboth.2) hrest⟩
  have hnode := node_run (Machine.runFrom_of_restrict hwhole)
  rcases hinv'.tids_of_end hn hlimit hrelease hnode hend hfailed with ⟨hatrest, htids⟩
  have honce := Machine.restrict_mono (fun _ _ => once_of_orderly) hwhole
  rcases (refinement cfg n).exists_trace honce with ⟨ds, htrace⟩
  have hview : _ = some t.view := htrace.view_run
  have hkeys := System.keys_of_run hview
  rw [htids, lost_of_trace htrace, lost_of_rest (Machine.runFrom_of_restrict h) hrest,
    List.nil_append] at hkeys
  refine ⟨hatrest, hkeys, ?_⟩
  intro hnone
  have hpromises := System.promises_of_run hview
  rw [System.promises_of_keys (by rw [← List.perm_nil, ← hnone]; exact hkeys), futures_of_trace htrace,
    futures_of_rest (Machine.runFrom_of_restrict h) hrest] at hpromises
  exact hpromises

end progress

theorem underway_run :
    (((machine exampleConfig 2).restrict (Orderly exampleConfig)).run (underway 0 1)).isSome := by
  decide

theorem comesToRest_underway :
    ∃ s, ((machine exampleConfig 2).restrict (Orderly exampleConfig)).run (underway 0 1) = some s
      ∧ ∃ es t, ((machine exampleConfig 2).restrict (Rest exampleConfig)).runFrom s es = some t
        ∧ es.length ≤ s.distance
        ∧ ∀ e, ((machine exampleConfig 2).restrict (Rest exampleConfig)).step t e = none := by
  have hrun := (Option.some_get underway_run).symm
  have hrest' := comesToRest (by decide) (by decide) rfl hrun
  rcases hrest'.1 with ⟨es, t, hrest, hend⟩
  have hlength := (hrest'.2 es t hrest).1
  exact ⟨_, hrun, es, t, hrest, Nat.le_of_add_right_le hlength, hend⟩

end FullStack
end Seuss
