import Seuss.Deployment.Provenance
import Seuss.System.Provenance

/-!
This module puts the controller, the channel and the work queue together with the instances and
snapshots of the invoker node, and shows whose code an activation runs. The start paths are taken with
the invocations that `GetWork` handed out, on the core that it handed them to.
-/

namespace Seuss
namespace Transparency

open Msg Invoker Deployment

structure State (n : Nat) where
  system : System.State
  deployed : Deployed n

def State.node {n : Nat} (s : State n) : Deployment.State n where
  toDeployed := s.deployed
  root := s.system.root

inductive Event (n : Nat) where
  | system (e : System.Event)
  | deployment (e : Deployment.Event n)

variable {n : Nat}

def Handed (s : System.State) (e : Deployment.Event n) : Prop :=
  match e.start? with
  | some (c, i) => (c.val, i) ∈ s.handed
  | none => True

instance (s : System.State) (e : Deployment.Event n) : Decidable (Handed s e) := by
  unfold Handed
  split <;> infer_instance

variable (cfg : System.Config)

def State.step (s : State n) (e : Event n) : Option (Except Fault (State n)) :=
  match e with
  | .system e => (s.system.step cfg e).map fun r => do
    let system ← r
    .ok { s with system := system }
  | .deployment e =>
    if Handed s.system e then
      (s.node.step cfg.nativeBuild e).map fun r => do
        let node ← r
        .ok { system := { s.system with root := node.root }, deployed := node.toDeployed }
    else
      none

def machine (limit reuseLimit : UInt16) (n : Nat) : Machine (State n) (Event n) where
  init := { system := .new, deployed := .new limit reuseLimit n }
  step s e := (s.step cfg e).bind Except.toOption

def Scheduled (es : List (Event n)) (i : Invocation) : Prop :=
  ∃ env am code, .system (.scheduleActivation env am code) ∈ es
    ∧ i = System.scheduledInvocation cfg.hash env am code

structure Inv (es : List (Event n)) (s : State n) : Prop where
  sent : System.Sent (Scheduled cfg es) s.system
  owned : Owned s.node
  coded : Coded s.node
  starts : ∀ st ∈ s.deployed.starts, Scheduled cfg es st.invocation

section step

variable {cfg} {es : List (Event n)} {s t : State n} {e : Event n} {i : Invocation}

theorem Scheduled.concat (h : Scheduled cfg es i) : Scheduled cfg (es ++ [e]) i := by
  rcases h with ⟨env, am, code, hmem, hi⟩
  exact ⟨env, am, code, List.mem_append_left _ hmem, hi⟩

theorem Scheduled.sized (h : Scheduled cfg es i) : i.info.argsSize = i.args.length := by
  rcases h with ⟨env, am, code, _, rfl⟩
  rfl

theorem machine_step {limit reuseLimit : UInt16} :
    (machine cfg limit reuseLimit n).step s e = some t ↔ s.step cfg e = some (.ok t) := by
  apply Machine.bind_toOption_eq_some

theorem Inv.system {e : System.Event} (h : Inv cfg es s)
    (hs : s.step cfg (.system e) = some (.ok t)) : Inv cfg (es ++ [.system e]) t := by
  simp only [State.step, Option.map_eq_some_iff] at hs
  rcases hs with ⟨r, hstep, hr⟩
  cases r with
  | error fault => cases hr
  | ok system =>
    cases hr
    have hsent : System.Sent (Scheduled cfg (es ++ [.system e])) s.system :=
      h.sent.mono fun i hi => hi.concat
    have hnew : ∀ env am code, e = .scheduleActivation env am code →
        Scheduled cfg (es ++ [.system e]) (System.scheduledInvocation cfg.hash env am code) := by
      rintro env am code rfl
      exact ⟨env, am, code, by simp, rfl⟩
    rcases hsent.step (fun i hi => hi.sized) hnew hstep with ⟨hsent, hsnapmap⟩
    refine ⟨hsent, ?_, ⟨h.coded.instances, h.coded.snapshots, h.coded.starts, h.coded.cold⟩, ?_⟩
    . refine ⟨h.owned.stalled, ?_, h.owned.sessions, h.owned.checkpoints, h.owned.starts,
        h.owned.served, h.owned.origins⟩
      unfold State.node
      rw [hsnapmap]
      exact h.owned.snapmap
    . intro st hst
      exact (h.starts st hst).concat

theorem Inv.deployment {e : Deployment.Event n} (h : Inv cfg es s)
    (hs : s.step cfg (.deployment e) = some (.ok t)) : Inv cfg (es ++ [.deployment e]) t := by
  simp only [State.step, Option.ite_none_right_eq_some, Option.map_eq_some_iff] at hs
  rcases hs with ⟨hhanded, r, hstep, hr⟩
  cases r with
  | error fault => cases hr
  | ok node =>
    cases hr
    have hmoved := moved_of_step hstep
    have hsent : System.Sent (Scheduled cfg (es ++ [.deployment e])) s.system :=
      h.sent.mono fun i hi => hi.concat
    refine ⟨⟨hsent.spawned, hsent.requests, ?_, hsent.handed⟩, h.owned.moved hmoved,
      h.coded.moved h.owned hmoved, ?_⟩
    . dsimp only
      rcases root_of_moved hmoved with hroot | ⟨fid, sv, _, hroot⟩
      . rw [hroot]
        exact hsent.queued
      . rw [hroot]
        exact hsent.queued
    . dsimp only
      rcases starts_of_moved hmoved with hstarts | ⟨c, st, hstart, hstarts⟩
      . rw [hstarts]
        intro st hst
        exact (h.starts st hst).concat
      . rw [hstarts]
        apply Pool.forall_put
        . intro st hst
          exact (h.starts st hst).concat
        . unfold Handed at hhanded
          rw [hstart] at hhanded
          exact hsent.handed _ hhanded

end step

section run

variable {cfg} {limit reuseLimit : UInt16} {es : List (Event n)} {s : State n}

theorem inv_of_run (h : (machine cfg limit reuseLimit n).run es = some s) : Inv cfg es s := by
  refine Machine.run_induction _ (P := Inv cfg) ?_ ?_ h
  . exact ⟨System.Sent.new _, .new limit reuseLimit, .new limit reuseLimit, by simp [machine, Deployed.new]⟩
  . intro es s e t _ hinv hstep
    rw [machine_step] at hstep
    cases e with
    | system e => exact hinv.system hstep
    | deployment e => exact hinv.deployment hstep

end run

def exampleConfig : System.Config where
  hash := fun s => (s.length + 1).toUInt64
  hostedBuild := .debug
  nativeBuild := .release
  numCpus := 2

def exampleEnv : Controller.ScheduleEnv where
  getAction := fun action => "code of ".toList ++ action.name
  now := 0
  beyond := fun _ => 'x'

end Transparency
end Seuss
