import Seuss.InvokerRoot.Basic

/-!
This module contains the idle instances that one core of an invoker keeps for hot starts.
-/

namespace Seuss
namespace Invoker

-- `umm::umi::id`, where 0 is the `null_id`
abbrev UmiId := Nat

structure HotInstances where
  hotInstanceLimit : UInt16
  hotInstanceReuseLimit : UInt16
  stalledInstanceMap : UnorderedMap UInt64 UmiId
  stalledInstanceFifo : List UInt64
  stalledInstanceUsageCount : UnorderedMap UmiId UInt16

def HotInstances.new (limit reuseLimit : UInt16) : HotInstances where
  hotInstanceLimit := limit
  hotInstanceReuseLimit := reuseLimit
  stalledInstanceMap := ∅
  stalledInstanceFifo := []
  stalledInstanceUsageCount := ∅

namespace HotInstances

variable (build : Build)

def hotInstancesAreEnabled (c : HotInstances) : Bool :=
  c.hotInstanceLimit ≠ 0

def hotInstanceExists (c : HotInstances) (fid : UInt64) : Bool :=
  (c.stalledInstanceMap.find? fid).isSome

def getHotInstance (c : HotInstances) (fid : UInt64) : Except Fault (HotInstances × UmiId) :=
  match c.stalledInstanceMap.find? fid with
  | some umiId =>
    .ok (
      {
        c with
        stalledInstanceMap := AList.erase fid c.stalledInstanceMap
        stalledInstanceFifo := c.stalledInstanceFifo.erase fid
      },
      umiId
    )
  | none => .error .kabort

def hotInstanceCanBeReused (c : HotInstances) (id : UmiId) : Except Fault Bool := do
  build.kassert (id ≠ 0)
  if c.stalledInstanceMap.size ≥ c.hotInstanceLimit.toNat then
    .ok false
  else
    match c.stalledInstanceUsageCount.find? id with
    | some count => .ok (count ≤ c.hotInstanceReuseLimit)
    | none => .ok true

def increaseUsageCount (c : HotInstances) (id : UmiId) : HotInstances :=
  let count :=
    match c.stalledInstanceUsageCount.find? id with
    | some count => count + 1
    | none => 1
  { c with stalledInstanceUsageCount := AList.insert id count c.stalledInstanceUsageCount }

-- `managed` is what `umm::manager` has; the instance that is saved is told to yield.
def saveHotInstance (managed : UmiId → Bool) (c : HotInstances) (fid : UInt64) (umiId : UmiId) :
    Except Fault (HotInstances × Bool) := do
  build.kassert (fid ≠ 0)
  build.kassert (umiId ≠ 0)
  let reusable ← c.hotInstanceCanBeReused build umiId
  if !reusable || c.hotInstanceExists fid then
    .ok (c, false)
  else
    let c := c.increaseUsageCount umiId
    if !managed umiId then
      -- `kbugon(!umi)`
      .error .kabort
    else
      .ok (
        {
          c with
          stalledInstanceMap := (c.stalledInstanceMap.emplace fid umiId).1
          stalledInstanceFifo := c.stalledInstanceFifo ++ [fid]
        },
        true
      )

def takeHotInstance (managed : UmiId → Bool) (c : HotInstances) (fid : UInt64) :
    Except Fault (HotInstances × Option UmiId) := do
  if !c.hotInstancesAreEnabled || !c.hotInstanceExists fid then
    .ok (c, none)
  else
    let (c, umiId) ← c.getHotInstance fid
    if umiId = 0 || !managed umiId then
      .ok (c, none)
    else
      .ok (c, some umiId)

section stalledInstanceMap

variable {build} {managed : UmiId → Bool} {c c' : HotInstances} {fid : UInt64} {umiId : UmiId}

theorem increaseUsageCount_stalledInstanceMap :
    (c.increaseUsageCount umiId).stalledInstanceMap = c.stalledInstanceMap := by
  rfl

/--
What `takeHotInstance` can do: nothing, or taking the instance of `fid` out of the map and the fifo.
-/
theorem takeHotInstance_cases (managed : UmiId → Bool) (c : HotInstances) (fid : UInt64) :
    c.takeHotInstance managed fid = .ok (c, none)
      ∨ ∃ u, c.stalledInstanceMap.find? fid = some u
        ∧ c.takeHotInstance managed fid = .ok (
            {
              c with
              stalledInstanceMap := AList.erase fid c.stalledInstanceMap
              stalledInstanceFifo := c.stalledInstanceFifo.erase fid
            },
            if u = 0 || !managed u then none else some u
          ) := by
  simp only [takeHotInstance, getHotInstance, bind, Except.bind]
  split
  . exact .inl rfl
  . next hexists =>
    simp only [hotInstanceExists, Bool.or_eq_true, Bool.not_eq_true', not_or, Bool.not_eq_false,
      Option.isSome_iff_exists] at hexists
    rcases hexists.2 with ⟨u, hu⟩
    refine .inr ⟨u, hu, ?_⟩
    simp only [hu]
    split <;> rfl

theorem takeHotInstance_eq_none (h : c.takeHotInstance managed fid = .ok (c', none)) :
    c'.stalledInstanceMap = c.stalledInstanceMap
      ∨ c'.stalledInstanceMap = AList.erase fid c.stalledInstanceMap := by
  rcases takeHotInstance_cases managed c fid with hmiss | ⟨u, _, htake⟩
  . rw [hmiss] at h
    cases h
    exact .inl rfl
  . rw [htake, Except.ok.injEq, Prod.mk.injEq] at h
    rw [← h.1]
    exact .inr rfl

theorem takeHotInstance_eq_some (h : c.takeHotInstance managed fid = .ok (c', some umiId)) :
    c.stalledInstanceMap.find? fid = some umiId
      ∧ c'.stalledInstanceMap = AList.erase fid c.stalledInstanceMap := by
  rcases takeHotInstance_cases managed c fid with hmiss | ⟨u, hfind, htake⟩
  . rw [hmiss] at h
    cases h
  . rw [htake, Except.ok.injEq, Prod.mk.injEq] at h
    rcases h with ⟨rfl, htaken⟩
    split at htaken
    . cases htaken
    . cases htaken
      exact ⟨hfind, rfl⟩

theorem hotInstanceCanBeReused_cases (build : Build) (c : HotInstances) (id : UmiId) :
    c.hotInstanceCanBeReused build id = .error .assertion
      ∨ c.hotInstanceCanBeReused build id = .ok false
      ∨ (c.stalledInstanceMap.size < c.hotInstanceLimit.toNat
        ∧ ∃ b, c.hotInstanceCanBeReused build id = .ok b) := by
  unfold hotInstanceCanBeReused
  simp only [bind, Except.bind]
  rcases build.kassert_cases (id ≠ 0) with hid | hid
  . rw [hid]
    dsimp only
    split
    . exact .inr (.inl rfl)
    . next hsize =>
      refine .inr (.inr ⟨Nat.lt_of_not_ge hsize, ?_⟩)
      split
      . exact ⟨_, rfl⟩
      . exact ⟨_, rfl⟩
  . rw [hid]
    exact .inl rfl

/--
What `saveHotInstance` can do: fail an assertion, leave everything as it is, or enter the instance
under a function that has none while there is room. The last one aborts where the instance is gone.
-/
theorem saveHotInstance_cases (build : Build) (managed : UmiId → Bool) (c : HotInstances)
    (fid : UInt64) (umiId : UmiId) :
    c.saveHotInstance build managed fid umiId = .error .assertion
      ∨ c.saveHotInstance build managed fid umiId = .ok (c, false)
      ∨ (c.stalledInstanceMap.size < c.hotInstanceLimit.toNat
        ∧ c.stalledInstanceMap.find? fid = none
        ∧ c.saveHotInstance build managed fid umiId
            =
          if !managed umiId then
            .error .kabort
          else
            .ok (
              {
                c.increaseUsageCount umiId with
                stalledInstanceMap := AList.insert fid umiId c.stalledInstanceMap
                stalledInstanceFifo := c.stalledInstanceFifo ++ [fid]
              },
              true
            )) := by
  unfold saveHotInstance
  simp only [bind, Except.bind]
  rcases build.kassert_cases (fid ≠ 0) with hfid | hfid
  . rw [hfid]
    rcases build.kassert_cases (umiId ≠ 0) with hid | hid
    . rw [hid]
      rcases hotInstanceCanBeReused_cases build c umiId with hfault | hreuse | ⟨hsize, b, hreuse⟩
      . rw [hfault]
        exact .inl rfl
      . rw [hreuse]
        exact .inr (.inl rfl)
      . rw [hreuse]
        dsimp only
        split
        . exact .inr (.inl rfl)
        . next hexists =>
          simp only [Bool.or_eq_true, hotInstanceExists, not_or, Bool.not_eq_true,
            Option.isSome_eq_false_iff, Option.isNone_iff_eq_none] at hexists
          refine .inr (.inr ⟨hsize, hexists.2, ?_⟩)
          rw [increaseUsageCount_stalledInstanceMap,
            UnorderedMap.emplace_of_find?_none _ hexists.2]
          rfl
    . rw [hid]
      exact .inl rfl
  . rw [hfid]
    exact .inl rfl

theorem saveHotInstance_eq_ok {saved : Bool}
    (h : c.saveHotInstance build managed fid umiId = .ok (c', saved)) :
    c'.stalledInstanceMap = c.stalledInstanceMap
      ∨ c'.stalledInstanceMap = AList.insert fid umiId c.stalledInstanceMap := by
  rcases saveHotInstance_cases build managed c fid umiId with hfault | hrefused | ⟨_, _, hsave⟩
  . rw [hfault] at h
    cases h
  . rw [hrefused] at h
    cases h
    exact .inl rfl
  . rw [hsave] at h
    split at h
    . cases h
    . cases h
      exact .inr rfl

end stalledInstanceMap

end HotInstances
end Invoker
end Seuss
