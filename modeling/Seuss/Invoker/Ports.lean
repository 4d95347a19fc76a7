import Mathlib.Data.Nat.Find
import Mathlib.Data.Nat.Prime.Basic
import Seuss.Data.Machine
import Seuss.Data.Stride

/-!
This module contains the source ports of the sessions, which every core of an invoker takes from a
counter of its own.
-/

namespace Seuss
namespace Invoker

-- `base_port_`, `port_range_` and `port_` of the `Invoker` of one core
structure Ports where
  basePort : UInt16
  portRange : UInt16
  port : UInt16
  deriving DecidableEq, Repr

namespace Ports

def new : Ports where
  basePort := 49160
  portRange := .ofNat ((1 <<< 16) - 49160 - 1)
  port := 0

-- `count` is `Cpu::Count()` and `mine` is `Cpu::GetMine()`.
def getInternalPort (count mine : Nat) (p : Ports) : UInt16 × Ports :=
  let port := p.port + .ofNat count
  let portOffset := mine
  (.ofNat (p.basePort.toNat + (port.toNat + portOffset) % p.portRange.toNat), { p with port })

/--
The cores of one node. `srcPorts core` are the ports of the sessions that `core` made so far, in order.
-/
structure Cores where
  ports : Nat → Ports
  srcPorts : Nat → List UInt16

-- An event is `new_invocation_session` on one of the cores.
def machine (count : Nat) : Machine Cores Nat where
  init := { ports := fun _ => new, srcPorts := fun _ => [] }
  step s core :=
    if core < count then
      let (srcPort, ports) := getInternalPort count core (s.ports core)
      some {
        ports := fun c => if c = core then ports else s.ports c
        srcPorts := fun c => if c = core then s.srcPorts c ++ [srcPort] else s.srcPorts c
      }
    else
      none

theorem portRange_new : new.portRange.toNat = 16375 := by
  rfl

theorem basePort_new : new.basePort = 49160 := by
  rfl

-- the port that `core` gets after it has got `k` others
def portAt (count core k : Nat) : UInt16 :=
  .ofNat (49160 + ((k + 1) * count % 65536 + core) % 16375)

theorem toNat_portAt (count core k : Nat) :
    (portAt count core k).toNat = 49160 + ((k + 1) * count % 65536 + core) % 16375 := by
  have hlt := Nat.mod_lt ((k + 1) * count % 65536 + core) (y := 16375) (by decide)
  apply UInt16.toNat_ofNat_of_lt'
  rw [UInt16.size]
  omega

theorem portAt_eq_iff {count c d k l : Nat} :
    portAt count c k = portAt count d l
      ↔
    ((k + 1) * count % 65536 + c) % 16375 = ((l + 1) * count % 65536 + d) % 16375 := by
  rw [← UInt16.toNat_inj, toNat_portAt, toNat_portAt, Nat.add_left_cancel_iff]

theorem getInternalPort_new (count core k : Nat) :
    getInternalPort count core { new with port := .ofNat (k * count) }
      =
    (portAt count core k, { new with port := .ofNat ((k + 1) * count) }) := by
  have hport : UInt16.ofNat (k * count) + .ofNat count = .ofNat ((k + 1) * count) := by
    rw [← UInt16.ofNat_add, Nat.succ_mul]
  unfold getInternalPort portAt
  simp only [hport, portRange_new, basePort_new, UInt16.toNat_ofNat']
  rfl

/--
The counter of a core has been advanced once for each session of the core, whatever the other cores did
in between.
-/
theorem run_ports {count : Nat} {evs : List Nat} {s : Cores} (h : (machine count).run evs = some s) :
    ∀ core, s.ports core = { new with port := .ofNat (evs.count core * count) }
      ∧ s.srcPorts core = (List.range (evs.count core)).map (portAt count core) := by
  refine (machine count).run_induction (P := fun evs s => ∀ core,
    s.ports core = { new with port := .ofNat (evs.count core * count) }
      ∧ s.srcPorts core = (List.range (evs.count core)).map (portAt count core)) ?_ ?_ h
  . intro core
    rw [List.count_nil, Nat.zero_mul]
    exact ⟨rfl, rfl⟩
  . intro evs s e t _ ih he core
    simp only [machine] at he
    split at he
    . cases he
      rw [List.count_append, List.count_singleton]
      by_cases hcore : core = e
      . subst hcore
        rcases ih core with ⟨hports, hsrc⟩
        simp only [beq_self_eq_true, if_true, hports, hsrc, getInternalPort_new, List.range_succ,
          List.map_append, List.map_singleton, and_self]
      . have hbeq : (e == core) = false := beq_eq_false_iff_ne.mpr (Ne.symm hcore)
        simpa [hcore, hbeq] using ih core
    . cases he

theorem srcPorts_of_run {count : Nat} {evs : List Nat} {s : Cores}
    (h : (machine count).run evs = some s) (core : Nat) :
    s.srcPorts core = (List.range (evs.count core)).map (portAt count core) := by
  exact (run_ports h core).2

theorem exists_run {count : Nat} {evs : List Nat} (h : ∀ core ∈ evs, core < count) :
    ∃ s, (machine count).run evs = some s := by
  induction evs using List.reverseRecOn with
  | nil => exact ⟨_, rfl⟩
  | append_singleton evs core ih =>
    rw [List.forall_mem_append, List.forall_mem_singleton] at h
    rcases ih h.1 with ⟨s, hs⟩
    have hstep : ∃ t, (machine count).step s core = some t := by
      simp only [machine, if_pos h.2]
      exact ⟨_, rfl⟩
    rcases hstep with ⟨t, ht⟩
    exact ⟨t, (Machine.run_concat _).mpr ⟨s, hs, ht⟩⟩

section window

variable {count core k i j : Nat}

/--
The counter wraps around between the first and the last of `len` calls that come after `k` others.
-/
def Wraps (count k len : Nat) : Prop :=
  65536 ≤ (k + 1) * count % 65536 + (len - 1) * count

theorem portAt_eq_portAt_iff (hpos : 0 < count) (hij : i < j) (hj : (j - i) * count < 16375) :
    portAt count core i = portAt count core j
      ↔
    65536 ≤ (i + 1) * count % 65536 + 36 ∧ (j - i) * count = 36 := by
  have hadvance : (j + 1) * count % 65536 = ((i + 1) * count % 65536 + (j - i) * count) % 65536 := by
    rw [Nat.mod_add_mod, ← Nat.add_mul]
    congr 2
    omega
  have hlt := Nat.mod_lt ((i + 1) * count) (y := 65536) (by decide)
  have hdist : 0 < (j - i) * count := Nat.mul_pos (by omega) hpos
  rw [portAt_eq_iff, hadvance, Stride.residue_eq_iff hlt hdist hj (by decide)]
  constructor
  . rintro ⟨hwrap, h⟩
    rw [h] at hwrap
    exact ⟨hwrap, h⟩
  . rintro ⟨hwrap, h⟩
    rw [h]
    exact ⟨hwrap, rfl⟩

theorem wraps_of_portAt_eq (hpos : 0 < count) (hij : i < j) (hj : j < 16375 / count)
    (h : portAt count core (k + i) = portAt count core (k + j)) :
    count ∣ 36 ∧ Wraps count k (16375 / count) := by
  have hlen := Nat.div_mul_le_self 16375 count
  generalize 16375 / count = len at hj hlen
  have hsub : k + j - (k + i) = j - i := by
    omega
  have hdist : (j - i) * count < 16375 := by
    have hle : (j - i + 1) * count ≤ len * count := Nat.mul_le_mul_right _ (by omega)
    rw [Nat.add_mul] at hle
    omega
  rw [portAt_eq_portAt_iff hpos (by omega) (by rwa [hsub]), hsub] at h
  rcases h with ⟨hwrap, heq⟩
  refine ⟨Dvd.intro_left _ heq, ?_⟩
  have hend : (len - 1) * count = (len - 1 - j) * count + i * count + (j - i) * count := by
    rw [← Nat.add_mul, ← Nat.add_mul]
    congr 1
    omega
  have hfirst : (k + i + 1) * count % 65536 = ((k + 1) * count % 65536 + i * count) % 65536 := by
    rw [Nat.mod_add_mod, ← Nat.add_mul]
    congr 2
    omega
  rw [hfirst] at hwrap
  unfold Wraps
  omega

theorem exists_portAt_eq_of_wraps (hpos : 0 < count) (hcount : count ∣ 36)
    (h : Wraps count k (16375 / count)) :
    ∃ i j, i < j ∧ j < 16375 / count
      ∧ portAt count core (k + i) = portAt count core (k + j) := by
  rcases hcount with ⟨q, hq⟩
  have hqpos : 0 < q := by
    rcases Nat.eq_zero_or_pos q with rfl | hq'
    . cases hq
    . exact hq'
  have hle : count ≤ 36 := Nat.le_of_dvd (by decide) ⟨q, hq⟩
  have hlen : q + 1 ≤ 16375 / count := by
    rw [Nat.le_div_iff_mul_le hpos, Nat.add_mul, Nat.mul_comm q count]
    omega
  unfold Wraps at h
  generalize 16375 / count = len at h hlen
  have hsplit : (len - 1) * count = (len - 1 - q) * count + count * q := by
    rw [Nat.mul_comm count q, ← Nat.add_mul]
    congr 1
    omega
  have hwrap : 65536 ≤ (k + 1) * count % 65536 + (len - 1 - q) * count + 36 := by
    omega
  -- the first position from which the counter wraps around within `q` steps
  have hexists : ∃ i, 65536 ≤ (k + 1) * count % 65536 + i * count + 36 := ⟨_, hwrap⟩
  have hlast : Nat.find hexists ≤ len - 1 - q := Nat.find_min' hexists hwrap
  have hspec := Nat.find_spec hexists
  have hbefore : (k + 1) * count % 65536 + Nat.find hexists * count < 65536 := by
    have hlt := Nat.mod_lt ((k + 1) * count) (y := 65536) (by decide)
    rcases Nat.eq_zero_or_pos (Nat.find hexists) with hzero | hfind
    . rw [hzero]
      omega
    . have hmin := Nat.find_min hexists (m := Nat.find hexists - 1) (by omega)
      have hpred : Nat.find hexists * count = (Nat.find hexists - 1) * count + count := by
        rw [← Nat.succ_mul]
        congr 1
        omega
      omega
  generalize Nat.find hexists = i at hlast hspec hbefore
  have hdist : (k + (i + q) - (k + i)) * count = 36 := by
    rw [Nat.mul_comm, hq]
    congr 1
    omega
  refine ⟨i, i + q, by omega, by omega, ?_⟩
  rw [portAt_eq_portAt_iff hpos (by omega) (by omega)]
  have hfirst : (k + i + 1) * count % 65536 = (k + 1) * count % 65536 + i * count := by
    have hadd : (k + i + 1) * count = (k + 1) * count + i * count := by
      rw [← Nat.add_mul]
      congr 1
      omega
    rw [hadd, ← Nat.mod_add_mod, Nat.mod_eq_of_lt hbefore]
  rw [hfirst]
  exact ⟨hspec, hdist⟩

theorem getElem_window {f : Nat → UInt16} {n : Nat} {before window after : List UInt16}
    (h : (List.range n).map f = before ++ window ++ after) {i : Nat} (hi : i < window.length) :
    window[i] = f (before.length + i) := by
  have hlength := congrArg List.length h
  simp only [List.length_map, List.length_range, List.length_append] at hlength
  have hget : ((List.range n).map f)[before.length + i]? = some window[i] := by
    rw [h, List.append_assoc, List.getElem?_append_right (by omega), Nat.add_sub_cancel_left,
      List.getElem?_append_left hi, List.getElem?_eq_getElem hi]
  rw [List.getElem?_map, List.getElem?_range (by omega)] at hget
  exact (Option.some.inj hget).symm

/--
The ports of consecutive sessions of a core are distinct, as many of them as the range allows, unless the
16 bits of the counter wrap around among them and its stride divides 36, which is `65536 % 16375`.
-/
theorem window_distinct_iff (hpos : 1 ≤ count) {evs : List Nat} {s : Cores}
    (hrun : (machine count).run evs = some s) {before window after : List UInt16}
    (hsplit : s.srcPorts core = before ++ window ++ after)
    (hlength : window.length = new.portRange.toNat / count) :
    (window.Nodup ∧ ∀ p ∈ window, new.basePort ≤ p ∧ p ≤ 65534)
      ↔
    ¬ (count ∣ 36 ∧ Wraps count before.length window.length) := by
  rw [srcPorts_of_run hrun core] at hsplit
  have hwindow := @getElem_window _ _ _ _ _ hsplit
  rw [portRange_new] at hlength
  have hrange : ∀ p ∈ window, new.basePort ≤ p ∧ p ≤ 65534 := by
    intro p hp
    rcases List.getElem_of_mem hp with ⟨i, hi, rfl⟩
    have hlt := Nat.mod_lt ((before.length + i + 1) * count % 65536 + core) (y := 16375) (by decide)
    rw [hwindow hi, basePort_new, UInt16.le_iff_toNat_le, UInt16.le_iff_toNat_le, toNat_portAt]
    change 49160 ≤ _ ∧ _ ≤ 65534
    omega
  constructor
  . rintro ⟨hnodup, _⟩ ⟨hdvd, hwraps⟩
    rw [hlength] at hwraps
    rcases @exists_portAt_eq_of_wraps _ core _ hpos hdvd hwraps with ⟨i, j, hij, hj, heq⟩
    have hne := List.pairwise_iff_getElem.mp hnodup i j (by omega) (by omega) hij
    rw [hwindow, hwindow] at hne
    exact hne heq
  . intro hwraps
    refine ⟨?_, hrange⟩
    rw [List.Nodup, List.pairwise_iff_getElem]
    intro i j hi hj hij heq
    rw [hwindow hi, hwindow hj] at heq
    rw [hlength] at hwraps hj
    exact hwraps (wraps_of_portAt_eq hpos hij hj heq)

theorem run_two_sessions : ((machine 8000).run [0, 0]).isSome := by
  decide

theorem window_distinct_iff_two :
    (([57160, 65160] : List UInt16).Nodup
      ∧ ∀ p ∈ ([57160, 65160] : List UInt16), new.basePort ≤ p ∧ p ≤ 65534)
      ↔
    ¬ (8000 ∣ 36 ∧ Wraps 8000 0 2) := by
  exact @window_distinct_iff 8000 0 (by decide) _ _ (Option.some_get run_two_sessions).symm
    [] [57160, 65160] [] (by decide) (by decide)

theorem srcPorts_split (before length after : Nat) (f : Nat → UInt16) :
    (List.range (before + length + after)).map f
      =
    (List.range before).map f ++ (List.range' before length).map f
      ++ (List.range' (before + length) after).map f := by
  rw [← List.map_append, ← List.map_append]
  congr 1
  rw [List.range_eq_range', List.range_eq_range', List.append_assoc]
  have hrest := List.range'_append_1 (s := before) (m := length) (n := after)
  have hall := List.range'_append_1 (s := 0) (m := before) (n := length + after)
  rw [Nat.zero_add] at hall
  rw [hrest, hall, Nat.add_assoc]

/--
On a node with two cores, which is the default, the ports of the 32751st and the 32769th session of a core
are the same.
-/
theorem window_not_distinct :
    ∃ s before window after, (machine 2).run (List.replicate 40000 0) = some s
      ∧ s.srcPorts 0 = before ++ window ++ after
      ∧ window.length = new.portRange.toNat / 2
      ∧ ¬ window.Nodup := by
  have hcore : ∀ core ∈ List.replicate 40000 0, core < 2 := by
    intro core hcore
    rw [List.eq_of_mem_replicate hcore]
    decide
  rcases exists_run hcore with ⟨s, hs⟩
  have hsrc := srcPorts_of_run hs 0
  rw [List.count_replicate_self] at hsrc
  refine ⟨s, _, _, _, hs, hsrc.trans (srcPorts_split 30000 8187 1813 _), ?_, ?_⟩
  . rw [List.length_map, List.length_range', portRange_new]
  . intro hnodup
    have hne := List.pairwise_iff_getElem.mp hnodup 2750 2768 (by simp) (by simp) (by decide)
    simp only [List.getElem_map, List.getElem_range'] at hne
    exact hne (by decide)

end window

section cores

variable {count c d : Nat}

theorem mem_srcPorts_of_run {evs : List Nat} {s : Cores} (h : (machine count).run evs = some s)
    {core : Nat} {p : UInt16} (hp : p ∈ s.srcPorts core) :
    ∃ k, portAt count core k = p := by
  rw [srcPorts_of_run h, List.mem_map] at hp
  rcases hp with ⟨k, _, hk⟩
  exact ⟨k, hk⟩

theorem exists_run_of_lt (hc : c < count) (hd : d < count) (k l : Nat) :
    ∃ evs s, (machine count).run evs = some s ∧ portAt count c k ∈ s.srcPorts c
      ∧ portAt count d l ∈ s.srcPorts d := by
  have hcores : ∀ core ∈ List.replicate (k + 1) c ++ List.replicate (l + 1) d, core < count := by
    intro core hcore
    rw [List.mem_append] at hcore
    rcases hcore with hcore | hcore
    . rwa [List.eq_of_mem_replicate hcore]
    . rwa [List.eq_of_mem_replicate hcore]
  rcases exists_run hcores with ⟨s, hrun⟩
  refine ⟨_, s, hrun, ?_, ?_⟩
  . rw [srcPorts_of_run hrun]
    apply List.mem_map_of_mem
    rw [List.mem_range, List.count_append, List.count_replicate_self]
    omega
  . rw [srcPorts_of_run hrun]
    apply List.mem_map_of_mem
    rw [List.mem_range, List.count_append, List.count_replicate_self]
    omega

/--
Two cores never get the same port just if no multiple of `gcd(count, 65536)` that the counters can
differ by is what their offsets differ by modulo the range.
-/
theorem srcPorts_disjoint_iff (hc : c < count) (hd : d < count) :
    (∀ evs s, (machine count).run evs = some s → (s.srcPorts c).Disjoint (s.srcPorts d))
      ↔
    ∀ x : Int, (count.gcd 65536 : Int) ∣ x → (new.portRange.toNat : Int) ∣ x + c - d →
      65536 ≤ |x| := by
  have hshared := Stride.mul_mod_modEq_iff (W := 65536) (M := 16375) (n := count) (c := c) (d := d)
    (by decide)
  rw [portRange_new]
  constructor
  . intro h x hx hdvd
    rw [← Int.not_lt]
    intro hlt
    rcases hshared.mpr ⟨x, hx, hlt, hdvd⟩ with ⟨k, l, hkl⟩
    rcases exists_run_of_lt hc hd k l with ⟨evs, s, hrun, hk, hl⟩
    rw [← portAt_eq_iff] at hkl
    rw [← hkl] at hl
    exact h evs s hrun hk hl
  . intro h evs s hrun p hp hq
    rcases mem_srcPorts_of_run hrun hp with ⟨k, hk⟩
    rcases mem_srcPorts_of_run hrun hq with ⟨l, hl⟩
    rcases hshared.mp ⟨k, l, portAt_eq_iff.mp (hk.trans hl.symm)⟩ with ⟨x, hx, hlt, hdvd⟩
    exact absurd (h x hx hdvd) (Int.not_le.mpr hlt)

theorem srcPorts_disjoint_iff_sixteen :
    (∀ evs s, (machine 16).run evs = some s → (s.srcPorts 0).Disjoint (s.srcPorts 1))
      ↔
    ∀ x : Int, (Nat.gcd 16 65536 : Int) ∣ x → (new.portRange.toNat : Int) ∣ x + (0 : Nat) - (1 : Nat) →
      65536 ≤ |x| := by
  exact srcPorts_disjoint_iff (by decide) (by decide)

/--
On a node with two cores the 8189th session of the first core has the port that the first session of the
second core has.
-/
theorem srcPorts_not_disjoint :
    ∃ s, (machine 2).run (List.replicate 8189 0 ++ [1]) = some s
      ∧ (49163 : UInt16) ∈ s.srcPorts 0
      ∧ (49163 : UInt16) ∈ s.srcPorts 1 := by
  have hcores : ∀ core ∈ List.replicate 8189 0 ++ [1], core < 2 := by
    rw [List.forall_mem_append, List.forall_mem_singleton]
    refine ⟨?_, by decide⟩
    intro core hcore
    rw [List.eq_of_mem_replicate hcore]
    decide
  rcases exists_run hcores with ⟨s, hs⟩
  refine ⟨s, hs, ?_, ?_⟩
  . rw [srcPorts_of_run hs, List.count_append, List.count_replicate_self, List.mem_map]
    exact ⟨8188, by simp, by decide⟩
  . rw [srcPorts_of_run hs, List.mem_map]
    refine ⟨0, ?_, by decide⟩
    rw [List.mem_range, List.count_append, List.count_singleton_self]
    omega

-- Whatever the number of cores is, two of them share a port as soon as there are two.
theorem exists_shared_port (h : 2 ≤ count) (hcount : count < new.portRange.toNat) :
    ∃ c d, c < count ∧ d < count ∧ c ≠ d
      ∧ ¬ ∀ evs s, (machine count).run evs = some s → (s.srcPorts c).Disjoint (s.srcPorts d) := by
  have hgcd : count.gcd 65536 ∣ count := Nat.gcd_dvd_left count 65536
  have hle := Nat.le_of_dvd (by omega) hgcd
  rw [portRange_new] at hcount
  by_cases hone : count.gcd 65536 = 1
  . refine ⟨1, 0, by omega, by omega, by omega, ?_⟩
    rw [srcPorts_disjoint_iff (by omega) (by omega), hone]
    intro hx
    have hsmall := hx (-1) (by simp) (by simp)
    exact absurd hsmall (by decide)
  . have hdvd : 2 ∣ count.gcd 65536 := by
      have hpow : count.gcd 65536 ∣ 2 ^ 16 := Nat.gcd_dvd_right count 65536
      rcases (Nat.dvd_prime_pow Nat.prime_two).mp hpow with ⟨e, _, he⟩
      rw [he] at hone ⊢
      cases e with
      | zero => exact absurd rfl hone
      | succ e => exact Dvd.intro_left _ rfl
    have hmod := Nat.mod_lt 16375 (Nat.pos_of_dvd_of_pos hgcd (by omega))
    have hodd : 16375 % count.gcd 65536 % 2 = 1 := by
      rw [Nat.mod_mod_of_dvd _ hdvd]
    refine ⟨16375 % count.gcd 65536, 0, by omega, by omega, by omega, ?_⟩
    rw [srcPorts_disjoint_iff (by omega) (by omega), portRange_new]
    intro hx
    have hdiv := Nat.div_add_mod 16375 (count.gcd 65536)
    have hsmall := hx (count.gcd 65536 * (16375 / count.gcd 65536) : Nat)
      (Int.natCast_dvd_natCast.mpr (Nat.dvd_mul_right _ _)) (by omega)
    rw [abs_of_nonneg (by omega)] at hsmall
    omega

end cores

end Ports
end Invoker
end Seuss
