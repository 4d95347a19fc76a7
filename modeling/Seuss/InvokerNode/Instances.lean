import Seuss.InvokerNode.Lemmas

/-!
This module contains how many instances a core has: the concurrency limit bounds those that an invocation
waits for, the limit of idle instances bounds the others, and what is left has a halt to its name.
-/

namespace Seuss
namespace InvokerNode

open Invoker Deployment

variable {n : Nat} {build : Build} {limit hotLimit reuseLimit : UInt16} {s : State n}

theorem active_length_le (hlimit : limit.toNat ≤ 255)
    (h : (machine build limit hotLimit reuseLimit n).Reachable s) (c : Fin n) :
    (s.active c).length ≤ limit.toNat := by
  have hlimited : ((scheduling s.node).cores c).Limited limit :=
    limited_of_le hlimit (node_reachable h) c
  have hinflight := congrArg List.length ((aligned_of_reachable h).inflight c)
  rw [List.length_map] at hinflight
  rw [hinflight]
  exact hlimited.1

theorem blockedOn_length_le (l : List Active) : (blockedOn l).length ≤ l.length := by
  apply List.length_filterMap_le

theorem created_perm (h : (machine build limit hotLimit reuseLimit n).Reachable s) (c : Fin n) :
    (s.idle c).created.Perm
      (blockedOn (s.active c) ++ (s.idle c).hot.stalledInstanceMap.values
        ++ ((s.idle c).pendingHalts ++ (s.idle c).halted)) := by
  have hinv := (Idle.Inv.of_reachable (idle_reachable h c)).1
  rw [List.perm_iff_count]
  intro u
  have hplaces := hinv.places u
  have hblocked := ((aligned_of_reachable h).sessions c).count_eq u
  unfold Idle.State.places Idle.State.halts at hplaces
  simp only [List.count_append]
  omega

/--
Every instance that a core ever created is the one that an invocation in flight waits for, an idle one, or
one whose halt is signalled or about to be. Where the concurrency limit fits its counter, the first two
kinds are bounded by the limits. A session ends once here, and the manager has the instances that are idle.
-/
theorem population (h : (machine build limit hotLimit reuseLimit n).Reachable s) (c : Fin n) :
    (s.idle c).created.Nodup
      ∧ (s.idle c).created.Perm
        (blockedOn (s.active c) ++ (s.idle c).hot.stalledInstanceMap.values
          ++ ((s.idle c).pendingHalts ++ (s.idle c).halted))
      ∧ (limit.toNat ≤ 255 →
        (blockedOn (s.active c)).length + (s.idle c).hot.stalledInstanceMap.values.length
          ≤ limit.toNat + hotLimit.toNat) := by
  rcases Idle.Inv.of_reachable (idle_reachable h c) with ⟨hinv, hhot⟩
  refine ⟨hinv.nodup, created_perm h c, ?_⟩
  intro hlimit
  have hblocked := blockedOn_length_le (s.active c)
  have hactive := active_length_le hlimit h c
  have hidle := hinv.size_le
  rw [hhot] at hidle
  rw [UnorderedMap.length_values]
  omega

-- The instance of the first start waits for its halt, the one of the second start is idle.
def twoStarts (mine c : Fin 2) : List (Event 2) :=
  [
    .addWork mine (exampleInvocation 1),
    .poke c,
    .attempt c 0 0 fun _ => true,
    .attempt c 0 0 fun _ => true,
    .attempt c 0 4 fun _ => true,
    .captured 0 9,
    .addWork mine (exampleInvocation 2),
    .poke c,
    .attempt c 1 0 fun _ => true,
    .attempt c 1 5 fun _ => true,
    .closed c 0 0 fun _ => true,
    .closed c 1 0 fun _ => true
  ]

theorem twoStarts_run : ((machine .debug 2 1 0 2).run (twoStarts 0 1)).isSome := by
  decide

theorem population_twoStarts :
    ∃ s, (machine .debug 2 1 0 2).run (twoStarts 0 1) = some s
      ∧ ((s.idle 1).created, (s.idle 1).hot.stalledInstanceMap.values, (s.idle 1).pendingHalts)
        = ([4, 5], [4], [5])
      ∧ (blockedOn (s.active 1)).length + (s.idle 1).hot.stalledInstanceMap.values.length ≤ 3 := by
  have hrun := (Option.some_get twoStarts_run).symm
  exact ⟨_, hrun, by decide, (population ⟨_, hrun⟩ 1).2.2 (by decide)⟩

end InvokerNode
end Seuss
