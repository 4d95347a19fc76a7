import Mathlib.Data.Nat.ModEq
import Seuss.Data.UnorderedMap
import Seuss.Basic

/-!
This module contains `seuss::InvokerRoot`, which all cores of an invoker node share: the work queue
and the snapshot cache. `AddWork`, `GetWork` and the lookup of `GetSnapshot` hold `qlock_`, so each of
them is one step. `SetSnapshot` and `CacheIsFull` take no lock; that no other core comes in between
their steps is assumed.
-/

namespace Seuss

-- a `umm::UmSV *`
abbrev SnapshotId := Nat

def defaultSnapmapLimit : Nat := 32768

structure InvokerRoot where
  isBootstrapped : Bool
  requestMap : UnorderedMap UInt64 Invocation
  requestQueue : List UInt64
  snapmap : UnorderedMap UInt64 SnapshotId

-- what `seuss::Init` leaves behind
def InvokerRoot.bootstrapped : InvokerRoot where
  isBootstrapped := true
  requestMap := ∅
  requestQueue := []
  snapmap := ∅

namespace InvokerRoot

variable (build : Build)

-- The cores that a `Poke` is spawned on, in the order of the loop.
def pokedCores (numCpus mine : Nat) (tid : UInt64) : List Nat :=
  let offset := tid.toNat % numCpus
  ((List.range numCpus).map fun i => (i + offset) % numCpus).filter (· ≠ mine)

def addWork (numCpus mine : Nat) (root : InvokerRoot) (i : Invocation) :
    Except Fault (InvokerRoot × List Nat) := do
  let tid := i.info.transactionId
  let (requestMap, inserted) := root.requestMap.emplace tid i
  build.kassert inserted
  .ok (
    { root with requestMap := requestMap, requestQueue := root.requestQueue ++ [tid] },
    pokedCores numCpus mine tid
  )

def getWork (root : InvokerRoot) : Except Fault (InvokerRoot × Option Invocation) := do
  match root.requestQueue with
  | [] => .ok (root, none)
  | tid :: rest =>
    match root.requestMap.find? tid with
    | none =>
      -- `kassert(req != end())`, and a dereferenced end iterator where it is compiled out
      build.kassert false
      .error .undefined
    | some i =>
      .ok (
        { root with requestQueue := rest, requestMap := AList.erase tid root.requestMap },
        some i
      )

-- of `GetBaseSV`, whether it returns
def getBaseSV (root : InvokerRoot) : Except Fault Unit :=
  build.kassert root.isBootstrapped

def getSnapshot (root : InvokerRoot) (fid : UInt64) : Except Fault (Option SnapshotId) := do
  build.kassert root.isBootstrapped
  .ok (root.snapmap.find? fid)

def cacheIsFull (root : InvokerRoot) : Bool :=
  root.snapmap.size ≥ defaultSnapmapLimit

inductive SnapshotFate where
  | stored
  | deleted
  deriving DecidableEq, Repr

def setSnapshot (root : InvokerRoot) (fid : UInt64) (sv : SnapshotId) :
    Except Fault (InvokerRoot × SnapshotFate) := do
  build.kassert root.isBootstrapped
  match root.snapmap.find? fid with
  | some _ => .ok (root, .deleted)
  | none =>
    if root.cacheIsFull then
      .ok (root, .deleted)
    else
      let (snapmap, inserted) := root.snapmap.emplace fid sv
      build.kassert inserted
      .ok ({ root with snapmap := snapmap }, .stored)

section addWork

variable {build} {root root' : InvokerRoot} {numCpus mine : Nat} {i : Invocation}

theorem addWork_of_not_queued (h : root.requestMap.find? i.info.transactionId = none) :
    addWork build numCpus mine root i
      =
    .ok (
      {
        root with
        requestMap := AList.insert i.info.transactionId i root.requestMap
        requestQueue := root.requestQueue ++ [i.info.transactionId]
      },
      pokedCores numCpus mine i.info.transactionId
    ) := by
  simp [addWork, UnorderedMap.emplace_of_find?_none _ h, bind, Except.bind]

theorem addWork_eq_ok {pokes : List Nat} (h : addWork build numCpus mine root i = .ok (root', pokes)) :
    root'.requestQueue = root.requestQueue ++ [i.info.transactionId]
      ∧ pokes = pokedCores numCpus mine i.info.transactionId := by
  simp only [addWork, bind, Except.bind] at h
  split at h
  . cases h
  . cases h
    exact ⟨rfl, rfl⟩

theorem addWork_requestMap {pokes : List Nat}
    (h : addWork build numCpus mine root i = .ok (root', pokes)) :
    root'.requestMap = (root.requestMap.emplace i.info.transactionId i).1
      ∧ root'.snapmap = root.snapmap := by
  simp only [addWork, bind, Except.bind] at h
  split at h
  . cases h
  . cases h
    exact ⟨rfl, rfl⟩

theorem getWork_nil (h : root.requestQueue = []) : getWork build root = .ok (root, none) := by
  simp [getWork, h]

theorem getWork_cons {tid : UInt64} {rest : List UInt64} (hqueue : root.requestQueue = tid :: rest)
    (hfind : root.requestMap.find? tid = some i) :
    getWork build root
      =
    .ok (
      { root with requestQueue := rest, requestMap := AList.erase tid root.requestMap },
      some i
    ) := by
  simp [getWork, hqueue, hfind]

theorem getWork_eq_none (h : getWork build root = .ok (root', none)) :
    root.requestQueue = [] ∧ root' = root := by
  unfold getWork at h
  split at h
  . next hqueue =>
    cases h
    exact ⟨hqueue, rfl⟩
  . split at h
    . cases build <;> simp [Build.kassert, bind, Except.bind] at h
    . cases h

theorem getWork_eq_some (h : getWork build root = .ok (root', some i)) :
    ∃ tid, root.requestQueue = tid :: root'.requestQueue
      ∧ root.requestMap.find? tid = some i
      ∧ root'.requestMap = AList.erase tid root.requestMap
      ∧ root'.snapmap = root.snapmap := by
  unfold getWork at h
  split at h
  . cases h
  . next tid rest hqueue =>
    split at h
    . cases build <;> simp [Build.kassert, bind, Except.bind] at h
    . next hfind =>
      cases h
      exact ⟨tid, hqueue, hfind, rfl, rfl⟩

end addWork

section snapmap

variable {build} {root root' : InvokerRoot} {fid : UInt64} {sv : SnapshotId}

theorem getSnapshot_eq_ok {cached : Option SnapshotId}
    (h : getSnapshot build root fid = .ok cached) :
    root.snapmap.find? fid = cached := by
  simp only [getSnapshot, bind, Except.bind] at h
  split at h
  . cases h
  . cases h
    rfl

theorem setSnapshot_of_isBootstrapped (h : root.isBootstrapped) :
    ∃ root' fate, setSnapshot build root fid sv = .ok (root', fate) := by
  simp only [setSnapshot, h, Build.kassert_true, bind, Except.bind]
  split
  . exact ⟨_, _, rfl⟩
  . next hfind =>
    split
    . exact ⟨_, _, rfl⟩
    . simp [UnorderedMap.emplace_of_find?_none _ hfind]

theorem setSnapshot_eq_deleted (h : setSnapshot build root fid sv = .ok (root', .deleted)) :
    root' = root := by
  simp only [setSnapshot, bind, Except.bind] at h
  split at h
  . cases h
  . split at h
    . cases h
      rfl
    . next hfind =>
      split at h
      . cases h
        rfl
      . simp [UnorderedMap.emplace_of_find?_none _ hfind] at h

theorem setSnapshot_eq_stored (h : setSnapshot build root fid sv = .ok (root', .stored)) :
    root.snapmap.find? fid = none
      ∧ root.snapmap.size < defaultSnapmapLimit
      ∧ root' = { root with snapmap := AList.insert fid sv root.snapmap } := by
  simp only [setSnapshot, bind, Except.bind] at h
  split at h
  . cases h
  . split at h
    . cases h
    . next hfind =>
      split at h
      . cases h
      . next hfull =>
        simp only [UnorderedMap.emplace_of_find?_none _ hfind, Build.kassert_true] at h
        cases h
        refine ⟨hfind, ?_, rfl⟩
        simp only [cacheIsFull, decide_eq_true_eq] at hfull
        omega

end snapmap

section pokedCores

variable {numCpus mine c : Nat} {tid : UInt64}

theorem rotated_inj {offset i j : Nat} (hi : i < numCpus) (hj : j < numCpus)
    (h : (i + offset) % numCpus = (j + offset) % numCpus) : i = j := by
  have hmod : i ≡ j [MOD numCpus] := Nat.ModEq.add_right_cancel' offset h
  rwa [Nat.ModEq, Nat.mod_eq_of_lt hi, Nat.mod_eq_of_lt hj] at hmod

theorem pokedCores_nodup : (pokedCores numCpus mine tid).Nodup := by
  apply List.Nodup.filter
  apply List.Nodup.map_on
  . intro i hi j hj heq
    rw [List.mem_range] at hi hj
    exact rotated_inj hi hj heq
  . apply List.nodup_range

theorem mem_pokedCores : c ∈ pokedCores numCpus mine tid ↔ c < numCpus ∧ c ≠ mine := by
  simp only [pokedCores, List.mem_filter, List.mem_map, List.mem_range, decide_eq_true_eq]
  constructor
  . rintro ⟨⟨i, hi, rfl⟩, hne⟩
    exact ⟨Nat.mod_lt _ (by omega), hne⟩
  . rintro ⟨hc, hne⟩
    have hlt : tid.toNat % numCpus < numCpus := Nat.mod_lt _ (by omega)
    refine ⟨⟨(c + (numCpus - tid.toNat % numCpus)) % numCpus, Nat.mod_lt _ (by omega), ?_⟩, hne⟩
    rw [Nat.mod_add_mod]
    have : c + (numCpus - tid.toNat % numCpus) + tid.toNat % numCpus = c + numCpus := by
      omega
    rw [this, Nat.add_mod_right, Nat.mod_eq_of_lt hc]

theorem count_pokedCores (hc : c < numCpus) (hne : c ≠ mine) :
    (pokedCores numCpus mine tid).count c = 1 := by
  apply List.count_eq_one_of_mem
  . apply pokedCores_nodup
  . rw [mem_pokedCores]
    exact ⟨hc, hne⟩

theorem count_pokedCores_mine : (pokedCores numCpus mine tid).count mine = 0 := by
  rw [List.count_eq_zero, mem_pokedCores]
  simp

end pokedCores

end InvokerRoot
end Seuss
