import Seuss.Invoker.WorkConservation

/-!
This module contains the concurrency limit of a core. The limit has 16 bits, the counter that is
compared with it has 8: once 256 invocations are in flight the core looks idle again.
-/

namespace Seuss
namespace Invoker

variable {n : Nat} {build : Build} {limit : UInt16} {s s' : Node n}

def Core.Limited (limit : UInt16) (core : Core) : Prop :=
  core.inflight.length ≤ limit.toNat
    ∧ core.requestConcurrency.toNat = core.inflight.length

theorem limited_of_counts {core : Core} (hlimit : limit.toNat ≤ 255) (hcounts : core.Counts)
    (h : core.inflight.length ≤ limit.toNat) :
    core.Limited limit := by
  unfold Core.Counts at hcounts
  exact ⟨h, by omega⟩

theorem inflight_le_of_poked {root root' : InvokerRoot} {core core' : Core}
    (hpoked : Poked limit root core root' core') (h : core.Limited limit) :
    core'.inflight.length ≤ limit.toNat := by
  cases hpoked with
  | full => exact h.1
  | empty => exact h.1
  | entered hfree =>
    rw [UInt16.lt_iff_toNat_lt, UInt8.toNat_toUInt16, h.2] at hfree
    rw [invokeEnter, List.length_append, List.length_singleton]
    omega

theorem inflight_le_step {e : Event n} (h : ∀ c, (s.cores c).Limited limit)
    (hstep : (machine build limit n).step s e = some s') (c : Fin n) :
    (s'.cores c).inflight.length ≤ limit.toNat := by
  cases e with
  | addWork mine i =>
    rcases step_addWork hstep with ⟨_, hcores⟩
    rw [hcores]
    exact (h c).1
  | poke d =>
    rcases step_poke hstep with ⟨_, hother, hpoked⟩
    by_cases hc : c = d
    . rw [hc]
      exact inflight_le_of_poked hpoked (h d)
    . rw [hother c hc]
      exact (h c).1
  | leave d k =>
    rcases step_leave hstep with ⟨hk, _, hother, hcore⟩
    by_cases hc : c = d
    . rw [hc, hcore, invokeLeave, List.length_eraseIdx_of_lt hk]
      have := (h d).1
      omega
    . rw [hother c hc]
      exact (h c).1

theorem limited_of_le (hlimit : limit.toNat ≤ 255) (h : (machine build limit n).Reachable s)
    (c : Fin n) :
    (s.cores c).Limited limit := by
  refine Machine.Reachable.invariant (P := fun s => ∀ c, (s.cores c).Limited limit) ?_ ?_ h c
  . intro c
    exact ⟨Nat.zero_le _, rfl⟩
  . intro s e s' hs hinv hstep c
    apply limited_of_counts hlimit (counts_of_reachable (hs.step hstep) c)
    exact inflight_le_step hinv hstep c

theorem limited_of_single (hn : n ≤ 1) (h : (machine build limit n).Reachable s) (c : Fin n) :
    (s.cores c).Limited limit := by
  rcases h with ⟨es, hes⟩
  have hnil : (s.cores c).inflight = [] := ((unattended_of_run hn hes).quiescent c).2
  have hcounts : (s.cores c).Counts := counts_of_reachable ⟨es, hes⟩ c
  unfold Core.Counts at hcounts
  unfold Core.Limited
  rw [hcounts, hnil]
  exact ⟨Nat.zero_le _, rfl⟩

section overflow

-- `m` invocations are in flight on the core `c`, nothing is queued and `i` can be added.
structure Loaded (i : Invocation) (c : Fin n) (m : Nat) (s : Node n) : Prop where
  requestQueue : s.root.requestQueue = []
  requestMap : s.root.requestMap.find? i.info.transactionId = none
  inflight : (s.cores c).inflight.length = m

structure Offered (i : Invocation) (c : Fin n) (m : Nat) (s : Node n) : Prop where
  requestQueue : s.root.requestQueue = [i.info.transactionId]
  requestMap : s.root.requestMap.find? i.info.transactionId = some i
  inflight : (s.cores c).inflight.length = m
  pokes : 0 < (s.cores c).pokes

theorem offered_of_loaded {i : Invocation} {c mine : Fin n} {m : Nat} (hne : c ≠ mine)
    (h : Loaded i c m s) :
    ∃ s', (machine build limit n).step s (.addWork mine i) = some s' ∧ Offered i c m s' := by
  have hcount : (InvokerRoot.pokedCores n mine i.info.transactionId).count c.val = 1 := by
    apply InvokerRoot.count_pokedCores c.isLt
    omega
  refine ⟨_, step_addWork_of_not_queued h.requestMap, ?_⟩
  constructor
  . simp [h.requestQueue]
  . apply UnorderedMap.find?_insert_self
  . exact h.inflight
  . rw [spawnPokes_pokes, hcount]
    omega

theorem loaded_of_offered {i : Invocation} {c : Fin n} {m : Nat} (hlimit : 255 < limit.toNat)
    (hcounts : (s.cores c).Counts) (h : Offered i c m s) :
    ∃ s', (machine build limit n).step s (.poke c) = some s' ∧ Loaded i c (m + 1) s' := by
  have hfree : (s.cores c).requestConcurrency.toUInt16 < limit := by
    unfold Core.Counts at hcounts
    rw [UInt16.lt_iff_toNat_lt, UInt8.toNat_toUInt16, hcounts]
    omega
  refine ⟨_, step_poke_of_free h.pokes hfree h.requestQueue h.requestMap, ?_⟩
  constructor
  . rfl
  . apply UnorderedMap.find?_erase_self
  . simp [invokeEnter, h.inflight]

/--
From a limit of 256 on there is no bound on what a core that other cores poke may have in flight.
-/
theorem exists_loaded (build : Build) (limit : UInt16) (c mine : Fin n) (i : Invocation)
    (hlimit : 255 < limit.toNat) (hne : c ≠ mine) (m : Nat) :
    ∃ s, (machine build limit n).Reachable s ∧ Loaded i c m s := by
  induction m with
  | zero =>
    refine ⟨_, Machine.reachable_init _, ?_⟩
    constructor <;> rfl
  | succ m ih =>
    rcases ih with ⟨s, hs, hloaded⟩
    rcases offered_of_loaded hne hloaded with ⟨t, hadd, hoffered⟩
    have ht := hs.step hadd
    rcases loaded_of_offered hlimit (counts_of_reachable ht c) hoffered with ⟨s', hpoke, hloaded'⟩
    exact ⟨s', ht.step hpoke, hloaded'⟩

end overflow

/--
The limit is kept and the counter is exact in every reachable state exactly when the limit fits
the counter, or when there is no second core that could poke.
-/
theorem concurrencyLimit_iff :
    (∀ s, (machine build limit n).Reachable s → ∀ c,
      (s.cores c).inflight.length ≤ limit.toNat
        ∧ (s.cores c).requestConcurrency.toNat = (s.cores c).inflight.length)
      ↔
    limit.toNat ≤ 255 ∨ n ≤ 1 := by
  constructor
  . intro hlimited
    by_contra hlarge
    have hn : 1 < n := by omega
    have hlimit : 255 < limit.toNat := by omega
    rcases exists_loaded build limit ⟨1, hn⟩ ⟨0, by omega⟩ (exampleInvocation 1) hlimit (by simp)
      256 with ⟨s, hs, hloaded⟩
    have hcounter := (hlimited s hs ⟨1, hn⟩).2
    have hlt := (s.cores ⟨1, hn⟩).requestConcurrency.toNat_lt
    rw [hcounter, hloaded.inflight] at hlt
    omega
  . rintro (hlimit | hn) s hs c
    . exact limited_of_le hlimit hs c
    . exact limited_of_single hn hs c

theorem limit_256_exceeded :
    ∃ s, (machine .debug 256 2).Reachable s
      ∧ (s.cores 1).inflight.length = 257
      ∧ (s.cores 1).requestConcurrency = 1 := by
  rcases exists_loaded .debug 256 (1 : Fin 2) 0 (exampleInvocation 1) (by decide) (by decide) 257
    with ⟨s, hs, hloaded⟩
  refine ⟨s, hs, hloaded.inflight, ?_⟩
  have hcounts := counts_of_reachable hs 1
  unfold Core.Counts at hcounts
  rw [hloaded.inflight] at hcounts
  exact UInt8.toNat_inj.mp hcounts

end Invoker
end Seuss
