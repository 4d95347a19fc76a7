import Seuss.Data.Machine
import Seuss.InvokerRoot.Basic

/-!
This module contains how the cores of an invoker node take work: `Invoker::Poke` and
`Invoker::Invoke` on every core over the one work queue. A core runs one event at a time. Events
interleave where `Invoke` blocks, so that `invokeEnter` is `Invoke` up to its first `Block()` and
`invokeLeave` is what it does when the start path that it waited for has succeeded.
-/

namespace Seuss
namespace Invoker

structure Core where
  requestConcurrency : UInt8
  -- entered `Invoke` and not left yet
  inflight : List Invocation
  -- `Poke` events that are spawned on this core and have not run yet
  pokes : Nat

def Core.new : Core where
  requestConcurrency := 0
  inflight := []
  pokes := 0

structure Node (n : Nat) where
  root : InvokerRoot
  cores : Fin n → Core

def Node.new (n : Nat) : Node n where
  root := .bootstrapped
  cores := fun _ => .new

def invokeEnter (core : Core) (i : Invocation) : Core :=
  {
    core with
    requestConcurrency := core.requestConcurrency + 1
    inflight := core.inflight ++ [i]
  }

def invokeLeave (core : Core) (k : Nat) : Core :=
  {
    core with
    requestConcurrency := core.requestConcurrency - 1
    inflight := core.inflight.eraseIdx k
    pokes := core.pokes + 1
  }

def poke (build : Build) (limit : UInt16) (root : InvokerRoot) (core : Core) :
    Except Fault (InvokerRoot × Core) := do
  if core.requestConcurrency.toUInt16 ≥ limit then
    .ok (root, core)
  else
    let (root, work) ← root.getWork build
    match work with
    | none => .ok (root, core)
    | some i => .ok (root, invokeEnter core i)

def spawnPokes {n : Nat} (cores : Fin n → Core) (pokes : List Nat) (c : Fin n) : Core :=
  { cores c with pokes := (cores c).pokes + pokes.count c.val }

inductive Event (n : Nat) where
  | addWork (mine : Fin n) (i : Invocation)
  | poke (c : Fin n)
  | leave (c : Fin n) (k : Nat)

def Event.AddsWork {n : Nat} (e : Event n) : Prop :=
  match e with
  | .addWork .. => True
  | _ => False

def Event.ReceivedOn {n : Nat} (mine : Fin n) (e : Event n) : Prop :=
  match e with
  | .addWork c _ => c = mine
  | _ => True

instance {n : Nat} (mine : Fin n) (e : Event n) : Decidable (e.ReceivedOn mine) := by
  unfold Event.ReceivedOn
  split <;> infer_instance

variable {n : Nat}

def Node.addWork (build : Build) (s : Node n) (mine : Fin n) (i : Invocation) :
    Except Fault (Node n) := do
  let (root, pokes) ← s.root.addWork build n mine i
  .ok { root := root, cores := spawnPokes s.cores pokes }

def Node.poke (build : Build) (limit : UInt16) (s : Node n) (c : Fin n) :
    Except Fault (Node n) := do
  let core := { s.cores c with pokes := (s.cores c).pokes - 1 }
  let (root, core) ← Invoker.poke build limit s.root core
  .ok { root := root, cores := Function.update s.cores c core }

def Node.step (build : Build) (limit : UInt16) (s : Node n) (e : Event n) :
    Option (Except Fault (Node n)) :=
  match e with
  | .addWork mine i => some (s.addWork build mine i)
  | .poke c => if 0 < (s.cores c).pokes then some (s.poke build limit c) else none
  | .leave c k =>
    if k < (s.cores c).inflight.length then
      some (.ok { s with cores := Function.update s.cores c (invokeLeave (s.cores c) k) })
    else
      none

def machine (build : Build) (limit : UInt16) (n : Nat) : Machine (Node n) (Event n) where
  init := .new n
  step s e := (s.step build limit e).bind Except.toOption

def Node.Quiescent (s : Node n) : Prop :=
  ∀ c, (s.cores c).pokes = 0 ∧ (s.cores c).inflight = []

section spawnPokes

variable {cores : Fin n → Core} {pokes : List Nat} {c : Fin n}

@[simp]
theorem spawnPokes_inflight : (spawnPokes cores pokes c).inflight = (cores c).inflight := by
  rfl

theorem spawnPokes_pokes :
    (spawnPokes cores pokes c).pokes = (cores c).pokes + pokes.count c.val := by
  rfl

end spawnPokes

section step

variable {build : Build} {limit : UInt16} {s s' : Node n} {c j : Fin n}

inductive Poked (limit : UInt16) (root : InvokerRoot) (core : Core) : InvokerRoot → Core → Prop where
  | full (h : limit ≤ core.requestConcurrency.toUInt16) : Poked limit root core root core
  | empty (h : root.requestQueue = []) : Poked limit root core root core
  | entered {root' : InvokerRoot} {tid : UInt64} {i : Invocation}
      (hfree : core.requestConcurrency.toUInt16 < limit)
      (hqueue : root.requestQueue = tid :: root'.requestQueue) :
      Poked limit root core root' (invokeEnter core i)

theorem poked_of_poke {root root' : InvokerRoot} {core core' : Core}
    (h : poke build limit root core = .ok (root', core')) :
    Poked limit root core root' core' := by
  unfold poke at h
  split at h
  . next hfull =>
    cases h
    apply Poked.full hfull
  . next hfree =>
    simp only [bind, Except.bind] at h
    split at h
    . cases h
    . next v hwork =>
      rcases v with ⟨root'', work⟩
      cases work with
      | none =>
        cases h
        rcases InvokerRoot.getWork_eq_none hwork with ⟨hqueue, hroot⟩
        rw [hroot]
        apply Poked.empty hqueue
      | some i =>
        cases h
        rcases InvokerRoot.getWork_eq_some hwork with ⟨tid, hqueue, _⟩
        apply Poked.entered _ hqueue
        rwa [ge_iff_le, UInt16.not_le] at hfree

theorem machine_step {e : Event n} :
    (machine build limit n).step s e = some s' ↔ s.step build limit e = some (.ok s') := by
  apply Machine.bind_toOption_eq_some

theorem step_addWork {i : Invocation}
    (h : (machine build limit n).step s (.addWork c i) = some s') :
    s'.root.requestQueue = s.root.requestQueue ++ [i.info.transactionId]
      ∧ s'.cores
          = spawnPokes s.cores (InvokerRoot.pokedCores n c i.info.transactionId) := by
  rw [machine_step] at h
  simp only [Node.step, Option.some.injEq, Node.addWork, bind, Except.bind] at h
  split at h
  . cases h
  . next v hadd =>
    cases h
    rcases InvokerRoot.addWork_eq_ok hadd with ⟨hqueue, hpokes⟩
    exact ⟨hqueue, by rw [hpokes]⟩

theorem step_poke (h : (machine build limit n).step s (.poke c) = some s') :
    0 < (s.cores c).pokes
      ∧ (∀ j, j ≠ c → s'.cores j = s.cores j)
      ∧ Poked limit s.root { s.cores c with pokes := (s.cores c).pokes - 1 } s'.root (s'.cores c)
      := by
  rw [machine_step] at h
  simp only [Node.step, Option.ite_none_right_eq_some, Option.some.injEq] at h
  rcases h with ⟨hpos, h⟩
  simp only [Node.poke, bind, Except.bind] at h
  split at h
  . cases h
  . next v hpoke =>
    cases h
    refine ⟨hpos, ?_, ?_⟩
    . intro j hj
      simp [Function.update_of_ne hj]
    . simpa using poked_of_poke hpoke

theorem step_leave {k : Nat} (h : (machine build limit n).step s (.leave c k) = some s') :
    k < (s.cores c).inflight.length
      ∧ s'.root = s.root
      ∧ (∀ j, j ≠ c → s'.cores j = s.cores j)
      ∧ s'.cores c = invokeLeave (s.cores c) k := by
  rw [machine_step] at h
  simp only [Node.step, Option.ite_none_right_eq_some, Option.some.injEq, Except.ok.injEq] at h
  rcases h with ⟨hk, rfl⟩
  refine ⟨hk, rfl, ?_, ?_⟩
  . intro j hj
    simp [Function.update_of_ne hj]
  . simp

theorem step_addWork_of_not_queued {i : Invocation}
    (h : s.root.requestMap.find? i.info.transactionId = none) :
    (machine build limit n).step s (.addWork c i)
      =
    some {
      root := {
        s.root with
        requestMap := AList.insert i.info.transactionId i s.root.requestMap
        requestQueue := s.root.requestQueue ++ [i.info.transactionId]
      }
      cores := spawnPokes s.cores (InvokerRoot.pokedCores n c i.info.transactionId)
    } := by
  rw [machine_step, Node.step, Node.addWork, InvokerRoot.addWork_of_not_queued h]
  rfl

theorem step_poke_of_free {tid : UInt64} {rest : List UInt64} {i : Invocation}
    (hpos : 0 < (s.cores c).pokes) (hfree : (s.cores c).requestConcurrency.toUInt16 < limit)
    (hqueue : s.root.requestQueue = tid :: rest) (hfind : s.root.requestMap.find? tid = some i) :
    (machine build limit n).step s (.poke c)
      =
    some {
      root := {
        s.root with
        requestQueue := rest
        requestMap := AList.erase tid s.root.requestMap
      }
      cores := Function.update s.cores c
        (invokeEnter { s.cores c with pokes := (s.cores c).pokes - 1 } i)
    } := by
  rw [machine_step, Node.step, if_pos hpos, Node.poke, Invoker.poke,
    if_neg (UInt16.not_le.mpr hfree), InvokerRoot.getWork_cons hqueue hfind]
  rfl

end step

section counter

-- `request_concurrency_` counts modulo its own width.
def Core.Counts (core : Core) : Prop :=
  core.requestConcurrency.toNat = core.inflight.length % 256

theorem counts_new : Core.new.Counts := by
  rfl

theorem counts_invokeEnter {core : Core} {i : Invocation} (h : core.Counts) :
    (invokeEnter core i).Counts := by
  unfold Core.Counts at h ⊢
  simp only [invokeEnter, UInt8.toNat_add, UInt8.toNat_one, List.length_append,
    List.length_singleton, h]
  omega

theorem counts_invokeLeave {core : Core} {k : Nat} (hk : k < core.inflight.length)
    (h : core.Counts) :
    (invokeLeave core k).Counts := by
  unfold Core.Counts at h ⊢
  simp only [invokeLeave, UInt8.toNat_sub, UInt8.toNat_one, List.length_eraseIdx_of_lt hk, h]
  omega

theorem counts_of_poked {limit : UInt16} {root root' : InvokerRoot} {core core' : Core}
    (hpoked : Poked limit root core root' core') (h : core.Counts) :
    core'.Counts := by
  cases hpoked with
  | full => exact h
  | empty => exact h
  | entered => exact counts_invokeEnter h

theorem counts_of_reachable {build : Build} {limit : UInt16} {s : Node n}
    (h : (machine build limit n).Reachable s) (c : Fin n) :
    (s.cores c).Counts := by
  refine Machine.Reachable.invariant (P := fun s => ∀ c, (s.cores c).Counts) ?_ ?_ h c
  . intro c
    exact counts_new
  . intro s e s' _ hinv hstep c
    cases e with
    | addWork mine i =>
      rcases step_addWork hstep with ⟨_, hcores⟩
      rw [hcores]
      exact hinv c
    | poke d =>
      rcases step_poke hstep with ⟨_, hother, hpoked⟩
      by_cases hc : c = d
      . rw [hc]
        exact counts_of_poked hpoked (hinv d)
      . rw [hother c hc]
        exact hinv c
    | leave d k =>
      rcases step_leave hstep with ⟨hk, _, hother, hcore⟩
      by_cases hc : c = d
      . rw [hc, hcore]
        exact counts_invokeLeave hk (hinv d)
      . rw [hother c hc]
        exact hinv c

theorem le_inflight_of_full {limit : UInt16} {core : Core} (h : core.Counts)
    (hfull : limit ≤ core.requestConcurrency.toUInt16) :
    limit.toNat ≤ core.inflight.length := by
  unfold Core.Counts at h
  rw [UInt16.le_iff_toNat_le, UInt8.toNat_toUInt16] at hfull
  omega

end counter

end Invoker
end Seuss
