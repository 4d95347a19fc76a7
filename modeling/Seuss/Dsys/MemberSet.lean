import Mathlib.Data.Char
import Mathlib.Data.Finset.Basic
import Mathlib.Data.List.Lex
import Seuss.Data.CString
import Seuss.Data.Machine
import Seuss.Data.SetDifference

/-!
This module contains the membership list that a `MemberSet` keeps, and the events it raises when a
notification has the list changed.
-/

namespace Seuss

namespace ZooKeeper

inductive Event where
  | create
  | delete
  | change
  | childChange
  | session
  | error
  deriving DecidableEq, Repr

end ZooKeeper

namespace MemberSet

inductive Event (MemberId : Type u) where
  | setCreate
  | setDelete
  | memberAdd (id : MemberId)
  | memberDelete (id : MemberId)
  deriving DecidableEq

variable {MemberId : Type u} [LinearOrder MemberId]

-- The `List` that is asked for after a `ChildChange` answers `latest`.
def childChange (cache latest : List MemberId) : List MemberId × List (Event MemberId) :=
  if latest.length > cache.length then
    let diff := setDifference latest cache
    (diff.foldl (fun cache i => cache ++ [i]) cache, diff.map .memberAdd)
  else if latest.length < cache.length then
    let diff := setDifference cache latest
    (diff.foldl (fun cache i => cache.filter (· ≠ i)) cache, diff.map .memberDelete)
  else
    -- a warning that the set sizes are unchanged
    (cache, [])

def watchHandler (type : ZooKeeper.Event) (cache latest : List MemberId) :
    List MemberId × List (Event MemberId) :=
  match type with
  | .create => (cache, [.setCreate])
  | .delete => (cache, [.setDelete])
  | .childChange => childChange cache latest
  | .change | .session | .error => (cache, [])

omit [LinearOrder MemberId] in
theorem foldl_append (cache diff : List MemberId) :
    diff.foldl (fun cache i => cache ++ [i]) cache = cache ++ diff := by
  induction diff generalizing cache with
  | nil => simp
  | cons i diff ih =>
    rw [List.foldl_cons, ih, List.append_assoc]
    rfl

theorem foldl_filter (cache diff : List MemberId) :
    diff.foldl (fun cache i => cache.filter (· ≠ i)) cache = cache.filter (· ∉ diff) := by
  induction diff generalizing cache with
  | nil => simp
  | cons i diff ih =>
    rw [List.foldl_cons, ih, List.filter_filter]
    congr 1
    funext j
    simp [Bool.and_comm]

def Event.apply (members : Finset MemberId) (e : Event MemberId) : Finset MemberId :=
  match e with
  | .setCreate | .setDelete => members
  | .memberAdd id => insert id members
  | .memberDelete id => members.erase id

def replay (events : List (Event MemberId)) : Finset MemberId :=
  events.foldl Event.apply ∅

theorem mem_foldl_memberAdd {members : Finset MemberId} {diff : List MemberId} {i : MemberId} :
    i ∈ (diff.map Event.memberAdd).foldl Event.apply members ↔ i ∈ members ∨ i ∈ diff := by
  induction diff generalizing members with
  | nil => simp
  | cons j diff ih =>
    rw [List.map_cons, List.foldl_cons, ih, Event.apply, Finset.mem_insert, List.mem_cons]
    tauto

theorem mem_foldl_memberDelete {members : Finset MemberId} {diff : List MemberId} {i : MemberId} :
    i ∈ (diff.map Event.memberDelete).foldl Event.apply members ↔ i ∈ members ∧ i ∉ diff := by
  induction diff generalizing members with
  | nil => simp
  | cons j diff ih =>
    rw [List.map_cons, List.foldl_cons, ih, Event.apply, Finset.mem_erase, List.mem_cons]
    tauto

/--
A `MemberSet` and what has been observed of it: the lists of the last two notifications, the events that
the last one raised, and all the events so far.
-/
structure Observed (MemberId : Type u) where
  cache : List MemberId
  previous : List MemberId
  latest : List MemberId
  raised : List (Event MemberId)
  events : List (Event MemberId)

-- An event is a `ChildChange` with the list, which names no member twice.
def machine (MemberId : Type u) [LinearOrder MemberId] :
    Machine (Observed MemberId) (List MemberId) where
  init := { cache := [], previous := [], latest := [], raised := [], events := [] }
  step s latest :=
    if latest.Nodup then
      let (cache, raised) := watchHandler .childChange s.cache latest
      some { cache, previous := s.latest, latest, raised, events := s.events ++ raised }
    else
      none

structure Tracks (s : Observed MemberId) : Prop where
  nodup : s.cache.Nodup
  mem : ∀ i, i ∈ s.cache ↔ i ∈ s.latest
  raised : s.raised.Perm
    ((s.latest.filter (· ∉ s.previous)).map .memberAdd
      ++ (s.previous.filter (· ∉ s.latest)).map .memberDelete)
  replay : ∀ i, i ∈ replay s.events ↔ i ∈ s.latest

/--
The members only join or only leave, and the cache and the list are in step; or they are the same
members.
-/
def Manageable (cache latest : List MemberId) : Prop :=
  if latest.length > cache.length then
    SetDifference.InStep latest cache
  else if latest.length < cache.length then
    SetDifference.InStep cache latest
  else
    ∀ i, i ∈ latest ↔ i ∈ cache

-- On sorted lists it is enough that no member joins while another one leaves.
theorem manageable_of_sorted {cache latest : List MemberId} (hcache : cache.Pairwise (· < ·))
    (hlatest : latest.Pairwise (· < ·)) (h : cache ⊆ latest ∨ latest ⊆ cache) :
    Manageable cache latest := by
  have hcacheNodup : cache.Nodup := hcache.imp fun hlt => hlt.ne
  have hlatestNodup : latest.Nodup := hlatest.imp fun hlt => hlt.ne
  unfold Manageable
  rcases h with h | h
  . have hsubperm := List.subperm_of_subset hcacheNodup h
    have hle := hsubperm.length_le
    split
    . exact SetDifference.inStep_of_sorted hlatest hcache h
    . rw [if_neg (by omega)]
      intro i
      exact ((hsubperm.perm_of_length_le (by omega)).mem_iff).symm
  . have hsubperm := List.subperm_of_subset hlatestNodup h
    have hle := hsubperm.length_le
    rw [if_neg (by omega)]
    split
    . exact SetDifference.inStep_of_sorted hcache hlatest h
    . intro i
      exact (hsubperm.perm_of_length_le (by omega)).mem_iff

section step

variable {s t : Observed MemberId} {latest : List MemberId}

theorem step_eq_some (h : (machine MemberId).step s latest = some t) :
    latest.Nodup
      ∧ t = {
          cache := (childChange s.cache latest).1
          previous := s.latest
          latest
          raised := (childChange s.cache latest).2
          events := s.events ++ (childChange s.cache latest).2
        } := by
  simp only [machine, watchHandler] at h
  split at h
  . next hnodup =>
    cases h
    exact ⟨hnodup, rfl⟩
  . cases h

theorem replay_append (events raised : List (Event MemberId)) :
    replay (events ++ raised) = raised.foldl Event.apply (replay events) := by
  exact List.foldl_append

theorem tracks_of_joined (hs : Tracks s) (hlatest : latest.Nodup)
    (h : SetDifference.InStep latest s.cache) :
    Tracks {
      cache := s.cache ++ setDifference latest s.cache
      previous := s.latest
      latest
      raised := (setDifference latest s.cache).map .memberAdd
      events := s.events ++ (setDifference latest s.cache).map .memberAdd
    } := by
  have hsub := h.sublist.subset
  have hdiff : ∀ i, i ∈ setDifference latest s.cache ↔ i ∈ latest ∧ i ∉ s.cache := by
    intro i
    exact SetDifference.mem_iff hlatest hs.nodup h
  have hdiffNodup := (SetDifference.sublist latest s.cache).nodup hlatest
  constructor
  . rw [List.nodup_append']
    exact ⟨hs.nodup, hdiffNodup, fun i hi hd => ((hdiff i).mp hd).2 hi⟩
  . intro i
    rw [List.mem_append, hdiff]
    have := @hsub i
    tauto
  . have hleft : s.latest.filter (· ∉ latest) = [] := by
      rw [List.filter_eq_nil_iff]
      intro i hi
      simpa using hsub ((hs.mem i).mpr hi)
    dsimp only
    rw [hleft, List.map_nil, List.append_nil]
    apply List.Perm.map
    rw [List.perm_ext_iff_of_nodup hdiffNodup (hlatest.filter _)]
    intro i
    rw [hdiff, List.mem_filter, hs.mem, decide_eq_true_eq]
  . intro i
    rw [replay_append, mem_foldl_memberAdd, hs.replay, hdiff, ← hs.mem]
    have := @hsub i
    dsimp only
    tauto

theorem tracks_of_left (hs : Tracks s) (hold : s.latest.Nodup) (hlatest : latest.Nodup)
    (h : SetDifference.InStep s.cache latest) :
    Tracks {
      cache := s.cache.filter (· ∉ setDifference s.cache latest)
      previous := s.latest
      latest
      raised := (setDifference s.cache latest).map .memberDelete
      events := s.events ++ (setDifference s.cache latest).map .memberDelete
    } := by
  have hsub := h.sublist.subset
  have hdiff : ∀ i, i ∈ setDifference s.cache latest ↔ i ∈ s.cache ∧ i ∉ latest := by
    intro i
    exact SetDifference.mem_iff hs.nodup hlatest h
  constructor
  . exact hs.nodup.filter _
  . intro i
    rw [List.mem_filter, decide_eq_true_eq, hdiff]
    have := @hsub i
    tauto
  . have hjoined : latest.filter (· ∉ s.latest) = [] := by
      rw [List.filter_eq_nil_iff]
      intro i hi
      simpa using (hs.mem i).mp (hsub hi)
    dsimp only
    rw [hjoined, List.map_nil, List.nil_append]
    apply List.Perm.map
    have hdiffNodup := (SetDifference.sublist s.cache latest).nodup hs.nodup
    rw [List.perm_ext_iff_of_nodup hdiffNodup (hold.filter _)]
    intro i
    rw [hdiff, List.mem_filter, hs.mem, decide_eq_true_eq]
  . intro i
    rw [replay_append, mem_foldl_memberDelete, hs.replay, hdiff, ← hs.mem]
    have := @hsub i
    dsimp only
    tauto

theorem inStep_of_joined (hlatest : latest.Nodup) (hcache : s.cache.Nodup)
    (hnodup : (s.cache ++ setDifference latest s.cache).Nodup)
    (hmem : ∀ i, i ∈ s.cache ++ setDifference latest s.cache ↔ i ∈ latest) :
    SetDifference.InStep latest s.cache := by
  have hsub : s.cache ⊆ latest := by
    intro i hi
    exact (hmem i).mp (List.mem_append_left _ hi)
  rw [← SetDifference.forall_not_mem_iff hlatest hcache hsub]
  intro i hi hc
  exact (List.nodup_append'.mp hnodup).2.2 hc hi

theorem inStep_of_left (hlatest : latest.Nodup) (hcache : s.cache.Nodup)
    (hmem : ∀ i, i ∈ s.cache.filter (· ∉ setDifference s.cache latest) ↔ i ∈ latest) :
    SetDifference.InStep s.cache latest := by
  have hsub : latest ⊆ s.cache := by
    intro i hi
    exact (List.mem_filter.mp ((hmem i).mpr hi)).1
  rw [← SetDifference.forall_not_mem_iff hcache hlatest hsub]
  intro i hi hl
  have hkept := (List.mem_filter.mp ((hmem i).mpr hl)).2
  rw [decide_eq_true_eq] at hkept
  exact hkept hi

/--
A notification is handled right just if it is manageable.
-/
theorem step_tracks_iff (hs : Tracks s) (hold : s.latest.Nodup)
    (h : (machine MemberId).step s latest = some t) :
    Tracks t ↔ Manageable s.cache latest := by
  rcases step_eq_some h with ⟨hlatest, rfl⟩
  unfold Manageable childChange
  split
  . dsimp only
    rw [foldl_append]
    constructor
    . intro ht
      exact inStep_of_joined hlatest hs.nodup ht.nodup ht.mem
    . exact tracks_of_joined hs hlatest
  . split
    . dsimp only
      rw [foldl_filter]
      constructor
      . intro ht
        exact inStep_of_left hlatest hs.nodup ht.mem
      . exact tracks_of_left hs hold hlatest
    . constructor
      . intro ht i
        exact (ht.mem i).symm
      . intro hsame
        have hlists : ∀ i, i ∈ s.latest ↔ i ∈ latest := by
          intro i
          rw [hsame, hs.mem]
        constructor
        . exact hs.nodup
        . intro i
          exact (hsame i).symm
        . simp [hlists]
        . intro i
          rw [List.append_nil, hs.replay]
          exact hlists i

end step

theorem latest_nodup {s : Observed MemberId} (h : (machine MemberId).Reachable s) :
    s.latest.Nodup := by
  refine h.invariant (P := fun s => s.latest.Nodup) List.nodup_nil ?_
  intro s latest t _ _ ht
  rcases step_eq_some ht with ⟨hlatest, rfl⟩
  exact hlatest

theorem tracks_init : Tracks (machine MemberId).init where
  nodup := List.nodup_nil
  mem := fun _ => Iff.rfl
  raised := List.Perm.refl _
  replay := by
    intro i
    simp [machine, replay]

/--
The membership has been tracked in every state of a run just if each of its notifications was
manageable.
-/
theorem tracks_iff {evs : List (List MemberId)} {s : Observed MemberId}
    (h : (machine MemberId).run evs = some s) :
    (∀ before t, before <+: evs → (machine MemberId).run before = some t → Tracks t)
      ↔
    ∀ before latest t, before ++ [latest] <+: evs → (machine MemberId).run before = some t →
      Manageable t.cache latest := by
  refine (machine MemberId).forall_state_iff (P := Tracks)
    (C := fun s latest => Manageable s.cache latest) tracks_init ?_ h
  intro s latest t hreachable hs ht
  exact step_tracks_iff hs (latest_nodup hreachable) ht

theorem run_join_leave :
    ((machine CString).run [["1".toList], ["1".toList, "2".toList], ["2".toList]]).isSome := by
  decide

theorem tracks_iff_join_leave :
    (∀ before t, before <+: [["1".toList], ["1".toList, "2".toList], ["2".toList]] →
        (machine CString).run before = some t → Tracks t)
      ↔
    ∀ before latest t, before ++ [latest] <+: [["1".toList], ["1".toList, "2".toList], ["2".toList]] →
      (machine CString).run before = some t → Manageable t.cache latest := by
  exact tracks_iff (Option.some_get run_join_leave).symm

/--
One member leaves and another one joins before the next notification: the cache keeps the one that left,
and no event is raised.
-/
theorem swapped_not_tracked :
    ∃ s, (machine CString).run [["1".toList], ["2".toList]] = some s
      ∧ s.cache = ["1".toList]
      ∧ s.raised = []
      ∧ ¬ Tracks s := by
  refine ⟨_, rfl, rfl, rfl, ?_⟩
  intro h
  have hmem := (h.mem "1".toList).mp List.mem_cons_self
  exact absurd hmem (by decide)

end MemberSet
end Seuss
