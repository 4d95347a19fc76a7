import Seuss.Data.CInt
import Seuss.Data.Pool
import Seuss.Controller.Run

/-!
This module contains the CPUs that the controller reserves for the traffic with its back ends: which one a
node gets when it registers, and which one a request is sent from.
-/

namespace Seuss

open Msg

namespace OpenWhisk

inductive Thread where
  | ping
  | action
  deriving DecidableEq, Repr

def Thread.index (thread : Thread) : UInt64 :=
  match thread with
  | .ping => 1
  | .action => 2

def threadCount : Nat := 2

-- the threads that `connect` hands over to a loop of Kafka for good
def connect : List Thread :=
  [.ping, .action]

-- what `main` asks `Cpu::EarlyInit` for
def requestedCpus (nativeInstanceCount : UInt16) : Nat :=
  1 + threadCount + nativeInstanceCount.toNat

end OpenWhisk

namespace Controller

open OpenWhisk (Thread connect requestedCpus)

-- `(cpu_num - (int)_nids.size()) % cpu_num`, where `size` counts the node that registers
def reservedIndex (cpuNum : CInt) (size : Nat) : Option CInt := do
  let left ← CInt.sub cpuNum (CInt.ofSize size)
  CInt.rem left cpuNum

def Call.registers (call : Call) : Option NetworkId :=
  match call with
  | .registerNode _ nid => some nid
  | .scheduleActivation .. => none
  | .resolveActivation .. => none

def registered (calls : List Call) : List NetworkId :=
  calls.filterMap Call.registers

-- `GetPhysCpus` is asked anew by every `RegisterNode`, its answer stays what it is.
def Call.OnCpus (cpuNum : CInt) (call : Call) : Prop :=
  match call with
  | .registerNode n _ => n = cpuNum.toInt
  | .scheduleActivation .. => True
  | .resolveActivation .. => True

/--
Every `RegisterNode` so far has computed an index and stored it, and each of these indexes as well as
each one that `ScheduleActivation` has given to `GetByIndex` belongs to a CPU.
-/
structure InRange (cpuNum : CInt) (s : State) : Prop where
  reserved : ∀ k nid, s.controller.nids[k]? = some nid →
    ∃ index, reservedIndex cpuNum (k + 1) = some index
      ∧ s.controller.frontEndCpusMap.find? nid = some (UInt64.ofInt index.toInt)
  stored : ∀ nid index, s.controller.frontEndCpusMap.find? nid = some index →
    (index.toNat : Int) < cpuNum.toInt
  passed : ∀ event ∈ s.spawned, (event.ioCpu.toNat : Int) < cpuNum.toInt

/--
No two nodes share a CPU, and neither CPU 0 nor one that runs a loop of Kafka is reserved or sent from.
-/
structure Separated (s : State) : Prop where
  distinct : ∀ nid nid' index, s.controller.frontEndCpusMap.find? nid = some index →
    s.controller.frontEndCpusMap.find? nid' = some index → nid = nid'
  stored : ∀ nid index, s.controller.frontEndCpusMap.find? nid = some index →
    index ≠ 0 ∧ ∀ thread ∈ connect, index ≠ thread.index
  passed : ∀ event ∈ s.spawned,
    event.ioCpu ≠ 0 ∧ ∀ thread ∈ connect, event.ioCpu ≠ thread.index

section index

variable {cpuNum : CInt} {size : Nat}

variable (cpuNum) in
theorem exists_left (hcpu : 0 ≤ cpuNum.toInt) (hsize : size < 2147483648) :
    ∃ left, CInt.sub cpuNum (CInt.ofSize size) = some left ∧ left.toInt = cpuNum.toInt - size := by
  have hlt := CInt.toInt_lt cpuNum
  unfold CInt.sub
  rw [CInt.toInt_ofSize hsize]
  apply CInt.exists_ofInt?
  . omega
  . omega

theorem reservedIndex_of_le (hsize : 0 < size) (hle : size ≤ cpuNum.toInt) :
    ∃ index, reservedIndex cpuNum size = some index ∧ index.toInt = cpuNum.toInt - size := by
  have hlt := CInt.toInt_lt cpuNum
  have hcpu : 0 < cpuNum.toInt := by
    omega
  rcases exists_left cpuNum (Int.le_of_lt hcpu) (by omega : size < 2147483648) with ⟨left, hleft, hval⟩
  rcases CInt.exists_rem left hcpu with ⟨index, hindex, hrem⟩
  refine ⟨index, ?_, ?_⟩
  . unfold reservedIndex
    rw [hleft]
    exact hindex
  . rw [hrem, hval, Int.tmod_eq_of_lt]
    . omega
    . omega

theorem reservedIndex_eq_some {index : CInt} (hcpu : 0 ≤ cpuNum.toInt) (hsize : size < 2147483648)
    (h : reservedIndex cpuNum size = some index) :
    index.toInt = Int.tmod (cpuNum.toInt - size) cpuNum.toInt := by
  rcases exists_left cpuNum hcpu hsize with ⟨left, hleft, hval⟩
  unfold reservedIndex at h
  rw [hleft] at h
  rw [← hval]
  exact (CInt.rem_eq_some h).2

theorem reservedIndex_one (hlt : size < 2147483648) :
    reservedIndex 1 size = some 0 := by
  rcases exists_left 1 (by decide) hlt with ⟨left, hleft, hval⟩
  rcases CInt.exists_rem left (b := 1) (by decide) with ⟨index, hindex, hrem⟩
  have hone : (1 : CInt).toInt = 1 := rfl
  rw [hone, Int.tmod_one] at hrem
  unfold reservedIndex
  rw [hleft, ← CInt.toInt_eq_zero.mp hrem]
  exact hindex

-- `(int)_nids.size()` is negative here, and `cpu_num` less it does not fit
theorem reservedIndex_overflow (hcpu : 0 ≤ cpuNum.toInt) :
    reservedIndex cpuNum 2147483648 = none := by
  have hsize : (CInt.ofSize 2147483648).toInt = -2147483648 := rfl
  have hleft : CInt.sub cpuNum (CInt.ofSize 2147483648) = none := by
    unfold CInt.sub
    rw [CInt.ofInt?_eq_none, hsize]
    omega
  unfold reservedIndex
  rw [hleft]
  rfl

/--
The node after the last CPU: the remainder takes the sign of `cpu_num - (int)_nids.size()`, so it does not
wrap around to the highest CPU.
-/
theorem reservedIndex_succ {index : CInt} (hcpu : 1 < cpuNum.toInt) (hsize : size = cpuNum.toInt + 1)
    (h : reservedIndex cpuNum size = some index) :
    index.toInt = -1 := by
  have hlt := CInt.toInt_lt cpuNum
  by_cases hfits : size < 2147483648
  . have hneg : cpuNum.toInt - size = -1 := by
      omega
    rw [reservedIndex_eq_some (by omega) hfits h, hneg, Int.neg_tmod, Int.tmod_eq_of_lt]
    . omega
    . exact hcpu
  . have hmax : size = 2147483648 := by
      omega
    rw [hmax, reservedIndex_overflow (by omega)] at h
    cases h

end index

-- what `index` becomes as a `size_t` where none of it overflows
def slot (cpuNum : CInt) (size : Nat) : UInt64 :=
  UInt64.ofInt (Int.tmod (cpuNum.toInt - size) cpuNum.toInt)

/--
What the registrations of `ids` leave behind, whatever else the controller was called for.
-/
structure Reserved (cpuNum : CInt) (ids : List NetworkId) (s : State) : Prop where
  nids : s.controller.nids = ids
  stored : ∀ nid index, s.controller.frontEndCpusMap.find? nid = some index
    ↔ ∃ k, ids[k]? = some nid ∧ index = slot cpuNum (k + 1)
  passed : ∀ event ∈ s.spawned, ids[0]? = some event.nid ∧ event.ioCpu = slot cpuNum 1

section run

variable {hash : CString → UInt64} {build : Build} {cpuNum : CInt} {ids : List NetworkId}
  {s s' : State}

theorem reserved_new : Reserved cpuNum [] State.new := by
  constructor
  . rfl
  . intro nid index
    simp [State.new, Controller.new]
  . intro event hevent
    cases hevent

theorem Reserved.find?_eq_none (h : Reserved cpuNum ids s) {nid : NetworkId} (hnid : nid ∉ ids) :
    s.controller.frontEndCpusMap.find? nid = none := by
  cases hfind : s.controller.frontEndCpusMap.find? nid with
  | none => rfl
  | some index =>
    rw [h.stored] at hfind
    rcases hfind with ⟨k, hk, _⟩
    exact absurd (List.mem_of_getElem? hk) hnid

theorem Reserved.registerNode (h : Reserved cpuNum ids s) {nid : NetworkId} (hnid : nid ∉ ids)
    (hs : s.step hash build (.registerNode cpuNum.toInt nid) = .ok s') :
    Reserved cpuNum (ids ++ [nid]) s' := by
  cases hs
  have hnone := h.find?_eq_none hnid
  constructor
  . simp [Controller.registerNode, h.nids]
  . intro nid' index
    dsimp only [Controller.registerNode]
    rw [UnorderedMap.emplace_of_find?_none _ hnone, UnorderedMap.find?_insert, h.nids,
      List.length_append, List.length_singleton]
    split
    . next heq =>
      subst heq
      constructor
      . intro hindex
        cases hindex
        exact ⟨ids.length, by simp, rfl⟩
      . rintro ⟨k, hk, rfl⟩
        rw [History.getElem?_concat_iff] at hk
        rcases hk with hk | ⟨rfl, _⟩
        . exact absurd (List.mem_of_getElem? hk) hnid
        . rfl
    . next hne =>
      rw [h.stored]
      apply exists_congr
      intro k
      rw [History.getElem?_concat_iff]
      have hlast : ¬ (k = ids.length ∧ nid = nid') := fun hk => hne hk.2.symm
      rw [or_iff_left hlast]
  . intro event hevent
    rcases h.passed event hevent with ⟨hfirst, hslot⟩
    exact ⟨History.getElem?_concat_of_getElem? hfirst, hslot⟩

theorem Reserved.scheduleActivation (h : Reserved cpuNum ids s) {env : ScheduleEnv}
    {am : ActivationMessage} {code : CString}
    (hs : s.step hash build (.scheduleActivation env am code) = .ok s') :
    Reserved cpuNum ids s' := by
  rcases State.step_scheduleActivation_cases hs with ⟨_, event, hsched, rfl⟩
  rcases scheduleActivation_cases hsched with ⟨hnid, rfl, hevent⟩
  rw [h.nids, List.head?_eq_getElem?] at hnid
  -- the first node is in the map, so looking it up inserts nothing
  have hfind := (h.stored event.nid (slot cpuNum 1)).mpr ⟨0, hnid, rfl⟩
  rw [UnorderedMap.subscript_of_find?_some hfind] at hevent ⊢
  constructor
  . exact h.nids
  . exact h.stored
  . intro event' hevent'
    rw [List.mem_append, List.mem_singleton] at hevent'
    rcases hevent' with hmem | rfl
    . exact h.passed event' hmem
    . refine ⟨hnid, ?_⟩
      rw [hevent]

theorem Reserved.resolveActivation (h : Reserved cpuNum ids s) {uninit : CompletionMessage}
    {istats : InvocationStats} {res : CString} {endTime : Time}
    (hs : s.step hash build (.resolveActivation uninit istats res endTime) = .ok s') :
    Reserved cpuNum ids s' := by
  cases hfind : s.controller.recordMap.find? istats.transactionId with
  | none =>
    rw [State.step_resolveActivation_of_none hfind] at hs
    cases hs
    exact ⟨h.nids, h.stored, h.passed⟩
  | some record =>
    rw [State.step_resolveActivation_of_some hfind] at hs
    cases hs
    exact ⟨h.nids, h.stored, h.passed⟩

theorem registered_concat (calls : List Call) (call : Call) :
    registered (calls ++ [call]) = registered calls ++ call.registers.toList := by
  cases h : call.registers <;> simp [registered, List.filterMap_append, h]

theorem reserved_of_run {calls : List Call} (hcalls : ∀ call ∈ calls, call.OnCpus cpuNum)
    (hnodup : (registered calls).Nodup) (h : (machine hash build).run calls = some s) :
    Reserved cpuNum (registered calls) s := by
  refine (machine hash build).run_induction (P := fun calls s =>
    (∀ call ∈ calls, call.OnCpus cpuNum) → (registered calls).Nodup
      → Reserved cpuNum (registered calls) s) ?_ ?_ h hcalls hnodup
  . intro _ _
    exact reserved_new
  . intro calls s call s' _ ih hs hcalls hnodup
    have hs : s.step hash build call = .ok s' := Machine.toOption_eq_some.mp hs
    rw [List.forall_mem_append] at hcalls
    rw [registered_concat] at hnodup ⊢
    have hprev := ih hcalls.1 hnodup.of_append_left
    have hcall := hcalls.2 call (List.mem_singleton_self call)
    cases call with
    | registerNode n nid =>
      cases hcall
      have hnid : nid ∉ registered calls := by
        rw [Call.registers, Option.toList_some, List.nodup_append_comm, List.singleton_append,
          List.nodup_cons] at hnodup
        exact hnodup.1
      exact hprev.registerNode hnid hs
    | scheduleActivation env am code =>
      rw [Call.registers, Option.toList_none, List.append_nil]
      exact hprev.scheduleActivation hs
    | resolveActivation uninit istats res endTime =>
      rw [Call.registers, Option.toList_none, List.append_nil]
      exact hprev.resolveActivation hs

end run

section range

variable {hash : CString → UInt64} {build : Build} {cpuNum : CInt} {ids : List NetworkId}
  {s : State}

theorem exists_reservedIndex {size : Nat} (hcpu : 1 ≤ cpuNum.toInt) (hsize : 0 < size)
    (hfits : size ≤ cpuNum.toInt ∨ (cpuNum = 1 ∧ size < 2147483648)) :
    ∃ index, reservedIndex cpuNum size = some index
      ∧ 0 ≤ index.toInt
      ∧ index.toInt < cpuNum.toInt
      ∧ slot cpuNum size = UInt64.ofInt index.toInt := by
  have hbound : size < 2147483648 := by
    have hlt := CInt.toInt_lt cpuNum
    omega
  have hindex : ∃ index, reservedIndex cpuNum size = some index
      ∧ 0 ≤ index.toInt ∧ index.toInt < cpuNum.toInt := by
    rcases hfits with hle | ⟨hone, hlt⟩
    . rcases reservedIndex_of_le hsize hle with ⟨index, hindex, hval⟩
      exact ⟨index, hindex, by omega, by omega⟩
    . subst hone
      exact ⟨0, reservedIndex_one hlt, by decide, by decide⟩
  rcases hindex with ⟨index, hindex, hnonneg, hlt⟩
  refine ⟨index, hindex, hnonneg, hlt, ?_⟩
  rw [slot, reservedIndex_eq_some (by omega) hbound hindex]

theorem toNat_ofInt {n : Int} (hnonneg : 0 ≤ n) (hlt : n < 2147483648) :
    ((UInt64.ofInt n).toNat : Int) = n := by
  have hmod : n % 2 ^ 64 = n := by
    omega
  rw [UInt64.ofInt, hmod, UInt64.toNat_ofNat', Nat.mod_eq_of_lt (by omega),
    Int.toNat_of_nonneg hnonneg]

theorem slot_lt {size : Nat} (hcpu : 1 ≤ cpuNum.toInt) (hsize : 0 < size)
    (hfits : size ≤ cpuNum.toInt ∨ (cpuNum = 1 ∧ size < 2147483648)) :
    ((slot cpuNum size).toNat : Int) < cpuNum.toInt := by
  have hbound := CInt.toInt_lt cpuNum
  rcases exists_reservedIndex hcpu hsize hfits with ⟨index, _, hnonneg, hlt, hslot⟩
  rw [hslot, toNat_ofInt hnonneg (by omega)]
  exact hlt

theorem toNat_slot {size : Nat} (hsize : 0 < size) (hle : size ≤ cpuNum.toInt) :
    ((slot cpuNum size).toNat : Int) = cpuNum.toInt - size := by
  have hbound := CInt.toInt_lt cpuNum
  rw [slot, Int.tmod_eq_of_lt (by omega) (by omega), toNat_ofInt (by omega) (by omega)]

-- Requests only go to the first node, whose index is `cpu_num - 1` however many follow.
theorem Reserved.passed_lt (h : Reserved cpuNum ids s) (hcpu : 1 ≤ cpuNum.toInt)
    {event : SendRequestEvent} (hevent : event ∈ s.spawned) :
    (event.ioCpu.toNat : Int) < cpuNum.toInt := by
  rw [(h.passed event hevent).2]
  apply slot_lt hcpu Nat.one_pos
  exact .inl hcpu

theorem Reserved.inRange (h : Reserved cpuNum ids s) (hcpu : 1 ≤ cpuNum.toInt)
    (hfits : ids.length ≤ cpuNum.toInt ∨ (cpuNum = 1 ∧ ids.length < 2147483648)) :
    InRange cpuNum s := by
  have hsize : ∀ k nid, ids[k]? = some nid →
      ((k + 1 : Nat) : Int) ≤ cpuNum.toInt ∨ (cpuNum = 1 ∧ k + 1 < 2147483648) := by
    intro k nid hk
    have hlt := History.lt_length_of_getElem? hk
    rcases hfits with hle | ⟨hone, hlen⟩
    . exact .inl (by omega)
    . exact .inr ⟨hone, by omega⟩
  constructor
  . intro k nid hk
    rw [h.nids] at hk
    rcases exists_reservedIndex hcpu (Nat.succ_pos k) (hsize k nid hk) with
      ⟨index, hindex, _, _, hslot⟩
    refine ⟨index, hindex, ?_⟩
    rw [← hslot, h.stored]
    exact ⟨k, hk, rfl⟩
  . intro nid index hfind
    rw [h.stored] at hfind
    rcases hfind with ⟨k, hk, rfl⟩
    exact slot_lt hcpu (Nat.succ_pos k) (hsize k nid hk)
  . intro event hevent
    exact h.passed_lt hcpu hevent

theorem Reserved.fits_of_inRange (h : Reserved cpuNum ids s) (hcpu : 1 ≤ cpuNum.toInt)
    (hrange : InRange cpuNum s) :
    ids.length ≤ cpuNum.toInt ∨ (cpuNum = 1 ∧ ids.length < 2147483648) := by
  have hbound := CInt.toInt_lt cpuNum
  have hreserved := hrange.reserved
  rw [h.nids] at hreserved
  by_contra hfits
  rw [not_or, not_and] at hfits
  by_cases hone : cpuNum = 1
  . have hlen : 2147483647 < ids.length := by
      have := hfits.2 hone
      omega
    rcases hreserved 2147483647 _ (List.getElem?_eq_getElem hlen) with ⟨index, hindex, _⟩
    rw [reservedIndex_overflow (by omega)] at hindex
    cases hindex
  . have hcpu : 1 < cpuNum.toInt := by
      have hne : cpuNum.toInt ≠ 1 := fun heq => hone (Int32.toInt_inj.mp heq)
      omega
    have hlen : cpuNum.toInt.toNat < ids.length := by
      omega
    rcases hreserved _ _ (List.getElem?_eq_getElem hlen) with ⟨index, hindex, hstored⟩
    have hneg := reservedIndex_succ hcpu (by omega) hindex
    have hlt := hrange.stored _ _ hstored
    rw [hneg] at hlt
    have hmax : (UInt64.ofInt (-1)).toNat = 18446744073709551615 := rfl
    omega

theorem clear_of_three_le {index : UInt64} (h : 3 ≤ index.toNat) :
    index ≠ 0 ∧ ∀ thread ∈ connect, index ≠ thread.index := by
  have hne : ∀ i : UInt64, i.toNat < 3 → index ≠ i := by
    intro i hi heq
    rw [heq] at h
    omega
  constructor
  . exact hne 0 (by decide)
  . intro thread _
    apply hne
    cases thread <;> decide

theorem Reserved.separated (h : Reserved cpuNum ids s) (hlen : ids.length + 2 < cpuNum.toInt) :
    Separated s := by
  have hslot : ∀ k nid, ids[k]? = some nid →
      ((slot cpuNum (k + 1)).toNat : Int) = cpuNum.toInt - (k + 1 : Nat) ∧ k < ids.length := by
    intro k nid hk
    have hlt := History.lt_length_of_getElem? hk
    exact ⟨toNat_slot (Nat.succ_pos k) (by omega), hlt⟩
  have hclear : ∀ k nid, ids[k]? = some nid →
      slot cpuNum (k + 1) ≠ 0 ∧ ∀ thread ∈ connect, slot cpuNum (k + 1) ≠ thread.index := by
    intro k nid hk
    rcases hslot k nid hk with ⟨hval, hlt⟩
    have hthree : 3 ≤ (slot cpuNum (k + 1)).toNat := by
      omega
    exact clear_of_three_le hthree
  constructor
  . intro nid nid' index hfind hfind'
    rw [h.stored] at hfind hfind'
    rcases hfind with ⟨k, hk, rfl⟩
    rcases hfind' with ⟨k', hk', heq⟩
    have hval := (hslot k nid hk).1
    have hval' := (hslot k' nid' hk').1
    rw [heq] at hval
    have hkk : k = k' := by
      omega
    rw [hkk, hk'] at hk
    exact (Option.some.inj hk).symm
  . intro nid index hfind
    rw [h.stored] at hfind
    rcases hfind with ⟨k, hk, rfl⟩
    exact hclear k nid hk
  . intro event hevent
    rcases h.passed event hevent with ⟨hfirst, hioCpu⟩
    rw [hioCpu]
    exact hclear 0 _ hfirst

/--
There is a CPU for every node just if there are no more nodes than CPUs, or only one CPU, which every node
gets until their number does not fit an `int`.
-/
theorem inRange_iff {calls : List Call} (nativeInstanceCount : UInt16) (hcpu : 1 ≤ cpuNum.toInt)
    (hcalls : ∀ call ∈ calls, call.OnCpus cpuNum) (hnodup : (registered calls).Nodup)
    (h : (machine hash build).run calls = some s) :
    InRange cpuNum s
        ∧ (requestedCpus nativeInstanceCount ≤ cpuNum.toInt
            → (registered calls).length ≤ nativeInstanceCount.toNat → Separated s)
      ↔
    (registered calls).length ≤ cpuNum.toInt
      ∨ (cpuNum = 1 ∧ (registered calls).length < 2147483648) := by
  have hreserved := reserved_of_run hcalls hnodup h
  constructor
  . intro hprop
    exact hreserved.fits_of_inRange hcpu hprop.1
  . intro hfits
    refine ⟨hreserved.inRange hcpu hfits, ?_⟩
    intro hrequested hlen
    apply hreserved.separated
    unfold requestedCpus OpenWhisk.threadCount at hrequested
    omega

end range

-- the second node registers when a request is already on its way to the first one
def twoNodes : List Call :=
  let env : ScheduleEnv := { getAction := fun _ => "code".toList, now := 0, beyond := fun _ => 'x' }
  [
    .registerNode 5 "10.0.0.2".toList,
    .scheduleActivation env (testActivation "a".toList "r".toList) [],
    .registerNode 5 "10.0.0.3".toList
  ]

theorem twoNodes_run : ((machine (·.length.toUInt64) .debug).run twoNodes).isSome := by
  decide

theorem inRange_twoNodes :
    ∃ s, (machine (·.length.toUInt64) .debug).run twoNodes = some s
      ∧ s.spawned.map SendRequestEvent.ioCpu = [4]
      ∧ InRange 5 s
      ∧ Separated s := by
  have hrun := (Option.some_get twoNodes_run).symm
  have hcalls : ∀ call ∈ twoNodes, call.OnCpus 5 := by
    unfold twoNodes
    simp only [List.forall_mem_cons]
    exact ⟨rfl, trivial, rfl, List.forall_mem_nil _⟩
  have hrange := (inRange_iff 2 (by decide) hcalls (by decide) hrun).mpr (.inl (by decide))
  exact ⟨_, hrun, by decide, hrange.1, hrange.2 (by decide) (by decide)⟩

def threeNodes : List Call := [
  .registerNode 2 "10.0.0.2".toList,
  .registerNode 2 "10.0.0.3".toList,
  .registerNode 2 "10.0.0.4".toList
]

theorem threeNodes_run : ((machine (·.length.toUInt64) .debug).run threeNodes).isSome := by
  decide

theorem thirdNode_not_inRange :
    ∃ s, (machine (·.length.toUInt64) .debug).run threeNodes = some s
      ∧ (registered threeNodes).Nodup
      ∧ s.controller.frontEndCpusMap.find? "10.0.0.4".toList = some (UInt64.ofInt (-1))
      ∧ ¬ InRange 2 s := by
  have hstored : (((machine (·.length.toUInt64) .debug).run threeNodes).get
      threeNodes_run).controller.frontEndCpusMap.find? "10.0.0.4".toList
        = some (UInt64.ofInt (-1)) := by
    decide
  refine ⟨_, (Option.some_get threeNodes_run).symm, by decide, hstored, ?_⟩
  intro h
  have hlt := h.stored _ _ hstored
  revert hlt
  decide

end Controller
end Seuss
