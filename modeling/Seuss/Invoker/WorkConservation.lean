import Seuss.Invoker.Scheduling

/-!
This module contains what wakes the cores of an invoker node up: every `AddWork` pokes the other
cores and every invocation that leaves pokes its own. A core that does not receive requests has
pokes for all the work that it could take. Only a second core makes sure that no request is left
behind.
-/

namespace Seuss
namespace Invoker

variable {n : Nat} {build : Build} {limit : UInt16} {s s' : Node n}

def claimable (limit : UInt16) (root : InvokerRoot) (core : Core) : Nat :=
  min root.requestQueue.length (limit.toNat - core.inflight.length)

def Awake (limit : UInt16) (root : InvokerRoot) (core : Core) : Prop :=
  claimable limit root core ≤ core.pokes

theorem awake_of_poked {root root' : InvokerRoot} {core core' : Core} (hcounts : core.Counts)
    (hpos : 0 < core.pokes)
    (hpoked : Poked limit root { core with pokes := core.pokes - 1 } root' core')
    (h : Awake limit root core) :
    Awake limit root' core' := by
  unfold Awake claimable at h ⊢
  cases hpoked with
  | full hfull =>
    have hle : limit.toNat ≤ core.inflight.length := le_inflight_of_full hcounts hfull
    dsimp only
    omega
  | empty hqueue =>
    rw [hqueue, List.length_nil]
    omega
  | entered hfree hqueue =>
    rw [hqueue, List.length_cons] at h
    simp only [invokeEnter, List.length_append, List.length_singleton]
    omega

theorem requestQueue_length_le_of_poked {root root' : InvokerRoot} {core core' : Core}
    (hpoked : Poked limit root core root' core') :
    root'.requestQueue.length ≤ root.requestQueue.length := by
  cases hpoked with
  | full => omega
  | empty => omega
  | entered _ hqueue =>
    rw [hqueue, List.length_cons]
    omega

theorem awake_of_shorter {root root' : InvokerRoot} {core : Core}
    (hqueue : root'.requestQueue.length ≤ root.requestQueue.length)
    (h : Awake limit root core) :
    Awake limit root' core := by
  unfold Awake claimable at h ⊢
  omega

theorem awake_of_addWork {mine j : Fin n} {i : Invocation} (hne : j ≠ mine)
    (hstep : (machine build limit n).step s (.addWork mine i) = some s')
    (h : Awake limit s.root (s.cores j)) :
    Awake limit s'.root (s'.cores j) := by
  rcases step_addWork hstep with ⟨hqueue, hcores⟩
  have hcount : (InvokerRoot.pokedCores n mine i.info.transactionId).count j.val = 1 := by
    apply InvokerRoot.count_pokedCores j.isLt
    omega
  unfold Awake claimable at h ⊢
  rw [hcores, spawnPokes_inflight, spawnPokes_pokes, hcount, hqueue, List.length_append,
    List.length_singleton]
  omega

theorem awake_of_invokeLeave {root : InvokerRoot} {core : Core} {k : Nat}
    (hk : k < core.inflight.length) (h : Awake limit root core) :
    Awake limit root (invokeLeave core k) := by
  unfold Awake claimable at h ⊢
  simp only [invokeLeave, List.length_eraseIdx_of_lt hk]
  omega

theorem awake_step {j : Fin n} {e : Event n} (hcounts : (s.cores j).Counts)
    (hne : ∀ mine i, e = .addWork mine i → j ≠ mine)
    (hstep : (machine build limit n).step s e = some s') (h : Awake limit s.root (s.cores j)) :
    Awake limit s'.root (s'.cores j) := by
  cases e with
  | addWork mine i => exact awake_of_addWork (hne mine i rfl) hstep h
  | poke c =>
    rcases step_poke hstep with ⟨hpos, hother, hpoked⟩
    by_cases hj : j = c
    . subst hj
      exact awake_of_poked hcounts hpos hpoked h
    . rw [hother j hj]
      exact awake_of_shorter (requestQueue_length_le_of_poked hpoked) h
  | leave c k =>
    rcases step_leave hstep with ⟨hk, hroot, hother, hcore⟩
    rw [hroot]
    by_cases hj : j = c
    . subst hj
      rw [hcore]
      exact awake_of_invokeLeave hk h
    . rw [hother j hj]
      exact h

/--
No wake-up is lost: where `AddWork` runs on the core `mine` only, every other core has as many
`Poke` events pending as there are queued requests that it has free slots for.
-/
theorem workConservation {mine : Fin n}
    (h : ((machine build limit n).restrict fun _ e => e.ReceivedOn mine).Reachable s) :
    ∀ j, j ≠ mine →
      min s.root.requestQueue.length (limit.toNat - (s.cores j).inflight.length)
          ≤ (s.cores j).pokes
        ∧ (s.root.requestQueue ≠ [] → (s.cores j).inflight.length < limit.toNat →
            0 < (s.cores j).pokes) := by
  intro j hj
  have hawake : Awake limit s.root (s.cores j) := by
    refine Machine.Reachable.invariant (P := fun s => Awake limit s.root (s.cores j)) ?_ ?_ h
    . unfold Awake claimable
      apply Nat.min_le_left
    . intro s e s' hs hinv hstep
      rw [Machine.restrict_step] at hstep
      rcases hstep with ⟨hmine, hstep⟩
      apply awake_step (counts_of_reachable hs.of_restrict j) _ hstep hinv
      rintro c i rfl
      rw [Event.ReceivedOn] at hmine
      rwa [hmine]
  unfold Awake claimable at hawake
  constructor
  . exact hawake
  . intro hqueue hfree
    rw [← List.length_pos_iff] at hqueue
    omega

def exampleInvocation (tid : UInt64) : Invocation where
  info := {
    transactionId := tid
    functionId := 7
    argsSize := 2
    activationId := .filled 'a'
    exec := .zero
  }
  code := "code".toList
  args := "\x7b\x7d".toList

theorem workConservation_backlog_run :
    (((machine .debug 2 2).restrict fun _ e => e.ReceivedOn 0).run [
      .addWork 0 (exampleInvocation 1), .addWork 0 (exampleInvocation 2), .poke 1
    ]).isSome := by
  decide

theorem workConservation_backlog :
    ∃ s, ((machine .debug 2 2).restrict fun _ e => e.ReceivedOn 0).Reachable s
      ∧ s.root.requestQueue = [2]
      ∧ (s.cores 1).inflight.length = 1
      ∧ 0 < (s.cores 1).pokes := by
  have hrun := (Option.some_get workConservation_backlog_run).symm
  have hawake := workConservation ⟨_, hrun⟩ 1 (by decide)
  exact ⟨_, ⟨_, hrun⟩, by decide, by decide, hawake.2 (by decide) (by decide)⟩

section stranded

def Attended (s : Node n) : Prop :=
  s.root.requestQueue ≠ [] → ∃ c, 0 < (s.cores c).pokes ∨ (s.cores c).inflight ≠ []

theorem attended_of_addWork {mine : Fin n} {i : Invocation} (hn : 2 ≤ n)
    (hstep : (machine build limit n).step s (.addWork mine i) = some s') :
    Attended s' := by
  intro _
  rcases step_addWork hstep with ⟨_, hcores⟩
  have hj : ∃ j : Fin n, j ≠ mine := by
    by_cases hmine : mine.val = 0
    . refine ⟨⟨1, by omega⟩, ?_⟩
      simp [Fin.ext_iff, hmine]
    . refine ⟨⟨0, by omega⟩, ?_⟩
      simp only [ne_eq, Fin.ext_iff]
      omega
  rcases hj with ⟨j, hj⟩
  have hcount : (InvokerRoot.pokedCores n mine i.info.transactionId).count j.val = 1 := by
    apply InvokerRoot.count_pokedCores j.isLt
    omega
  refine ⟨j, .inl ?_⟩
  rw [hcores, spawnPokes_pokes, hcount]
  omega

theorem inflight_ne_nil_of_poked {root root' : InvokerRoot} {core core' : Core}
    (hlimit : 0 < limit) (hpoked : Poked limit root core root' core') (hcounts : core.Counts)
    (hqueue : root'.requestQueue ≠ []) :
    core'.inflight ≠ [] := by
  cases hpoked with
  | full hfull =>
    have hle : limit.toNat ≤ core.inflight.length := le_inflight_of_full hcounts hfull
    rw [UInt16.lt_iff_toNat_lt, UInt16.toNat_zero] at hlimit
    rw [← List.length_pos_iff]
    omega
  | empty hempty => exact absurd hempty hqueue
  | entered => simp [invokeEnter]

theorem attended_of_poke {c : Fin n} (hlimit : 0 < limit) (hcounts : (s.cores c).Counts)
    (hstep : (machine build limit n).step s (.poke c) = some s') :
    Attended s' := by
  intro hqueue
  rcases step_poke hstep with ⟨_, _, hpoked⟩
  exact ⟨c, .inr (inflight_ne_nil_of_poked hlimit hpoked hcounts hqueue)⟩

theorem attended_of_leave {c : Fin n} {k : Nat}
    (hstep : (machine build limit n).step s (.leave c k) = some s') :
    Attended s' := by
  intro _
  rcases step_leave hstep with ⟨_, _, _, hcore⟩
  refine ⟨c, .inl ?_⟩
  rw [hcore]
  simp [invokeLeave]

theorem attended_of_two_le (hn : 2 ≤ n) (hlimit : 0 < limit)
    (h : (machine build limit n).Reachable s) :
    Attended s := by
  refine Machine.Reachable.invariant (P := Attended) ?_ ?_ h
  . intro hqueue
    exact absurd rfl hqueue
  . intro s e s' hs _ hstep
    cases e with
    | addWork mine i => exact attended_of_addWork hn hstep
    | poke c => exact attended_of_poke hlimit (counts_of_reachable hs c) hstep
    | leave c k => exact attended_of_leave hstep

theorem requestQueue_nil_of_attended (hattended : Attended s) (hquiescent : s.Quiescent) :
    s.root.requestQueue = [] := by
  by_contra hqueue
  rcases hattended hqueue with ⟨c, hpokes | hinflight⟩
  . rw [(hquiescent c).1] at hpokes
    omega
  . exact hinflight (hquiescent c).2

-- On a single core nothing is ever poked: what is added stays in the queue.
structure Unattended (es : List (Event n)) (s : Node n) : Prop where
  quiescent : s.Quiescent
  requestQueue : s.root.requestQueue = [] ↔ ∀ e ∈ es, ¬ e.AddsWork

theorem unattended_step {es : List (Event n)} {e : Event n} (hn : n ≤ 1)
    (h : Unattended es s) (hstep : (machine build limit n).step s e = some s') :
    Unattended (es ++ [e]) s' := by
  cases e with
  | addWork mine i =>
    rcases step_addWork hstep with ⟨hqueue, hcores⟩
    constructor
    . intro c
      have hc : c.val = mine.val := by omega
      rw [hcores, spawnPokes_pokes, spawnPokes_inflight, hc, InvokerRoot.count_pokedCores_mine]
      exact h.quiescent c
    . simp [hqueue, Event.AddsWork]
  | poke c =>
    rcases step_poke hstep with ⟨hpos, _⟩
    rw [(h.quiescent c).1] at hpos
    omega
  | leave c k =>
    rcases step_leave hstep with ⟨hk, _⟩
    rw [(h.quiescent c).2] at hk
    simp at hk

theorem unattended_of_run {es : List (Event n)} (hn : n ≤ 1)
    (h : (machine build limit n).run es = some s) :
    Unattended es s := by
  refine (machine build limit n).run_induction (P := Unattended) ?_ ?_ h
  . constructor
    . intro c
      exact ⟨rfl, rfl⟩
    . simp [machine, Node.new, InvokerRoot.bootstrapped]
  . intro es s e s' _ hinv hstep
    exact unattended_step hn hinv hstep

end stranded

/--
A quiescent node has nothing queued exactly when it has a second core or was never given any work.
-/
theorem requestQueue_nil_iff_of_quiescent {es : List (Event n)} (hlimit : 0 < limit)
    (h : (machine build limit n).run es = some s) (hquiescent : s.Quiescent) :
    s.root.requestQueue = [] ↔ 2 ≤ n ∨ ∀ e ∈ es, ¬ e.AddsWork := by
  by_cases hn : 2 ≤ n
  . have hqueue : s.root.requestQueue = [] :=
      requestQueue_nil_of_attended (attended_of_two_le hn hlimit ⟨es, h⟩) hquiescent
    simp [hqueue, hn]
  . have hunattended : Unattended es s := unattended_of_run (by omega) h
    rw [hunattended.requestQueue]
    simp [hn]

theorem requestQueue_nil_iff_of_quiescent_drained_run :
    ((machine .debug 1 2).run [
      .addWork 0 (exampleInvocation 1), .poke 1, .leave 1 0, .poke 1
    ]).isSome := by
  decide

theorem requestQueue_nil_iff_of_quiescent_drained :
    ∃ s, (machine .debug 1 2).Reachable s ∧ s.Quiescent ∧ s.root.requestQueue = [] := by
  have hrun := (Option.some_get requestQueue_nil_iff_of_quiescent_drained_run).symm
  have hquiescent : Node.Quiescent (Option.get _ requestQueue_nil_iff_of_quiescent_drained_run) := by
    unfold Node.Quiescent
    decide
  have hqueue := requestQueue_nil_iff_of_quiescent (by decide) hrun hquiescent
  exact ⟨_, ⟨_, hrun⟩, hquiescent, hqueue.mpr (.inl (by decide))⟩

theorem single_core_strands_request_run :
    ((machine .debug 12 1).run [.addWork 0 (exampleInvocation 1)]).isSome := by
  decide

theorem single_core_strands_request :
    ¬ ∀ (n : Nat) (limit : UInt16), 1 ≤ n → 1 ≤ limit →
      ∀ s : Node n, (machine .debug limit n).Reachable s → s.Quiescent →
        s.root.requestQueue = [] := by
  intro h
  have hrun := (Option.some_get single_core_strands_request_run).symm
  have hqueue := h 1 12 (by decide) (by decide) _ ⟨_, hrun⟩ (by unfold Node.Quiescent; decide)
  revert hqueue
  decide

end Invoker
end Seuss
