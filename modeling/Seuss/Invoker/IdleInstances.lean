import Seuss.Data.Machine
import Seuss.Data.Pool
import Seuss.Invoker.HotInstances

/-!
This module contains one invoker core as its idle instances see it: instances are created for new
sessions, every session ends by either of the callbacks of `WhenClosed` and `WhenAborted`, and an
instance goes back to the idle ones, into another session or is halted.
-/

namespace Seuss
namespace Invoker
namespace Idle

structure OpenSession where
  fid : UInt64
  umiId : UmiId

structure State where
  hot : HotInstances
  sessions : List OpenSession
  -- every instance there has been
  created : List UmiId
  -- the spawned events that signal a halt, and the halts that were signalled
  pendingHalts : List UmiId
  halted : List UmiId

def State.new (limit reuseLimit : UInt16) : State where
  hot := .new limit reuseLimit
  sessions := []
  created := []
  pendingHalts := []
  halted := []

inductive Event where
  | start (fid : UInt64) (umiId : UmiId)
  | hotStart (fid : UInt64) (managed : UmiId → Bool)
  | closed (k : Nat) (managed : UmiId → Bool)
  | aborted (k : Nat)
  | signalHalt (k : Nat)

variable (build : Build)

def State.processHotStart (s : State) (fid : UInt64) (managed : UmiId → Bool) :
    Except Fault State := do
  let (hot, taken) ← s.hot.takeHotInstance managed fid
  match taken with
  | none => .ok { s with hot := hot }
  | some umiId =>
    .ok { s with hot := hot, sessions := s.sessions ++ [{ fid := fid, umiId := umiId }] }

def State.sessionClosed (s : State) (session : OpenSession) (managed : UmiId → Bool) :
    Except Fault State := do
  let (hot, saved) ← s.hot.saveHotInstance build managed session.fid session.umiId
  let s := { s with hot := hot }
  if saved then
    .ok s
  else
    .ok { s with pendingHalts := s.pendingHalts ++ [session.umiId] }

-- `umm::manager` has every instance whose halt was not signalled.
def State.Keeps (s : State) (managed : UmiId → Bool) : Prop :=
  ∀ u ∈ s.created, u ∉ s.halted → managed u = true

instance (s : State) (managed : UmiId → Bool) : Decidable (s.Keeps managed) := by
  unfold State.Keeps
  infer_instance

def State.step (s : State) (e : Event) : Option (Except Fault State) :=
  match e with
  | .start fid umiId =>
    if umiId ≠ 0 ∧ umiId ∉ s.created then
      some (.ok {
        s with
        sessions := s.sessions ++ [{ fid := fid, umiId := umiId }]
        created := s.created ++ [umiId]
      })
    else
      none
  | .hotStart fid managed =>
    if s.Keeps managed then
      some (s.processHotStart fid managed)
    else
      none
  | .closed k managed =>
    if s.Keeps managed then
      s.sessions[k]?.map fun session =>
        { s with sessions := s.sessions.eraseIdx k }.sessionClosed build session managed
    else
      none
  | .aborted k => s.sessions[k]?.map fun session =>
    .ok {
      s with
      sessions := s.sessions.eraseIdx k
      pendingHalts := s.pendingHalts ++ [session.umiId]
    }
  | .signalHalt k => s.pendingHalts[k]?.map fun umiId =>
    .ok { s with pendingHalts := s.pendingHalts.eraseIdx k, halted := s.halted ++ [umiId] }

def machine (limit reuseLimit : UInt16) : Machine State Event where
  init := .new limit reuseLimit
  step s e := (s.step build e).bind Except.toOption

def State.halts (s : State) (u : UmiId) : Nat :=
  s.pendingHalts.count u + s.halted.count u

def State.places (s : State) (u : UmiId) : Nat :=
  (s.sessions.map OpenSession.umiId).count u + s.hot.stalledInstanceMap.values.count u + s.halts u

/--
Every instance is in exactly one place: a session, the idle instances, or on its way out.
-/
structure Inv (s : State) : Prop where
  listing : s.hot.stalledInstanceFifo.Perm s.hot.stalledInstanceMap.keys
  size_le : s.hot.stalledInstanceMap.size ≤ s.hot.hotInstanceLimit.toNat
  places : ∀ u, s.places u = s.created.count u
  nodup : s.created.Nodup
  nonzero : 0 ∉ s.created

theorem Inv.new (limit reuseLimit : UInt16) : Inv (State.new limit reuseLimit) where
  listing := .refl _
  size_le := Nat.zero_le _
  places := fun _ => rfl
  nodup := List.nodup_nil
  nonzero := List.not_mem_nil

section places

variable {s : State} {fid : UInt64} {u : UmiId}

theorem State.mem_values (hfind : s.hot.stalledInstanceMap.find? fid = some u) :
    0 < s.hot.stalledInstanceMap.values.count u := by
  rw [List.count_pos_iff, UnorderedMap.mem_values]
  exact ⟨fid, hfind⟩

theorem Inv.places_le (h : Inv s) (u : UmiId) : s.places u ≤ 1 := by
  rw [h.places]
  exact List.nodup_iff_count_le_one.mp h.nodup u

theorem Inv.halts_of_idle (h : Inv s) (hfind : s.hot.stalledInstanceMap.find? fid = some u) :
    s.halts u = 0 := by
  have hle := h.places_le u
  have hpos := s.mem_values hfind
  unfold State.places at hle
  omega

theorem Inv.created_of_idle (h : Inv s) (hfind : s.hot.stalledInstanceMap.find? fid = some u) :
    u ∈ s.created := by
  have hplaces := h.places u
  have hpos := s.mem_values hfind
  unfold State.places at hplaces
  rw [← List.count_pos_iff]
  omega

theorem Inv.created_of_open (h : Inv s) {k : Nat} {session : OpenSession}
    (hsession : s.sessions[k]? = some session) :
    session.umiId ∈ s.created := by
  have hplaces := h.places session.umiId
  have hpos := Pool.count_take OpenSession.umiId hsession session.umiId
  unfold State.places at hplaces
  rw [← List.count_pos_iff]
  simp only [↓reduceIte] at hpos
  omega

theorem Inv.halts_of_open (h : Inv s) {k : Nat} {session : OpenSession}
    (hsession : s.sessions[k]? = some session) :
    s.halts session.umiId = 0 := by
  have hle := h.places_le session.umiId
  have hpos := Pool.count_take OpenSession.umiId hsession session.umiId
  unfold State.places at hle
  simp only [↓reduceIte] at hpos
  omega

theorem State.Keeps.managed {managed : UmiId → Bool} (h : s.Keeps managed) (hcreated : u ∈ s.created)
    (hhalts : s.halts u = 0) :
    managed u = true := by
  apply h u hcreated
  unfold State.halts at hhalts
  rw [← List.count_eq_zero]
  omega

end places

/--
What a step does where every instance is in one place.
-/
inductive Moved (s t : State) : Prop where
  | started (fid : UInt64) (umiId : UmiId) (hnonzero : umiId ≠ 0) (hfresh : umiId ∉ s.created)
      (ht : t = {
        s with
        sessions := s.sessions ++ [{ fid := fid, umiId := umiId }]
        created := s.created ++ [umiId]
      })
  | missed (ht : t = s)
  | resumed (fid : UInt64) (umiId : UmiId)
      (hfind : s.hot.stalledInstanceMap.find? fid = some umiId)
      (ht : t = {
        s with
        hot := {
          s.hot with
          stalledInstanceMap := AList.erase fid s.hot.stalledInstanceMap
          stalledInstanceFifo := s.hot.stalledInstanceFifo.erase fid
        }
        sessions := s.sessions ++ [{ fid := fid, umiId := umiId }]
      })
  | saved (k : Nat) (session : OpenSession) (hsession : s.sessions[k]? = some session)
      (hsize : s.hot.stalledInstanceMap.size < s.hot.hotInstanceLimit.toNat)
      (hfree : s.hot.stalledInstanceMap.find? session.fid = none)
      (ht : t = {
        s with
        hot := {
          s.hot.increaseUsageCount session.umiId with
          stalledInstanceMap := AList.insert session.fid session.umiId s.hot.stalledInstanceMap
          stalledInstanceFifo := s.hot.stalledInstanceFifo ++ [session.fid]
        }
        sessions := s.sessions.eraseIdx k
      })
  | discarded (k : Nat) (session : OpenSession) (hsession : s.sessions[k]? = some session)
      (ht : t = {
        s with
        sessions := s.sessions.eraseIdx k
        pendingHalts := s.pendingHalts ++ [session.umiId]
      })
  | halted (k : Nat) (umiId : UmiId) (hpending : s.pendingHalts[k]? = some umiId)
      (ht : t = {
        s with
        pendingHalts := s.pendingHalts.eraseIdx k
        halted := s.halted ++ [umiId]
      })

section step

variable {build} {s t : State} {e : Event} {r : Except Fault State}

theorem Inv.processHotStart_cases (h : Inv s) (fid : UInt64) {managed : UmiId → Bool}
    (hkeeps : s.Keeps managed) :
    ∃ t, s.processHotStart fid managed = .ok t ∧ Moved s t := by
  unfold State.processHotStart
  rcases HotInstances.takeHotInstance_cases managed s.hot fid with hmiss | ⟨u, hfind, htake⟩
  . rw [hmiss]
    exact ⟨s, rfl, .missed rfl⟩
  . have hcreated := h.created_of_idle hfind
    have hmanaged : managed u = true := hkeeps.managed hcreated (h.halts_of_idle hfind)
    have hnonzero : u ≠ 0 := by
      intro hu
      exact h.nonzero (hu ▸ hcreated)
    rw [htake]
    simp only [hnonzero, hmanaged, decide_false, Bool.not_true, Bool.or_false, Bool.false_eq_true,
      ↓reduceIte, bind, Except.bind]
    exact ⟨_, rfl, .resumed fid u hfind rfl⟩

theorem Inv.sessionClosed_cases (h : Inv s) {k : Nat} {session : OpenSession}
    (hsession : s.sessions[k]? = some session) {managed : UmiId → Bool} (hkeeps : s.Keeps managed) :
    { s with sessions := s.sessions.eraseIdx k }.sessionClosed build session managed
        = .error .assertion
      ∨ ∃ t, { s with sessions := s.sessions.eraseIdx k }.sessionClosed build session managed = .ok t
        ∧ Moved s t := by
  have hmanaged : managed session.umiId = true :=
    hkeeps.managed (h.created_of_open hsession) (h.halts_of_open hsession)
  unfold State.sessionClosed
  rcases HotInstances.saveHotInstance_cases build managed s.hot session.fid session.umiId with
    hfault | hfull | ⟨hsize, hfree, hsave⟩
  . dsimp only
    rw [hfault]
    exact .inl rfl
  . dsimp only
    rw [hfull]
    exact .inr ⟨_, rfl, .discarded k session hsession rfl⟩
  . dsimp only
    rw [hsave, hmanaged]
    exact .inr ⟨_, rfl, .saved k session hsession hsize hfree rfl⟩

theorem Inv.step_cases (h : Inv s) (hs : s.step build e = some r) :
    r = .error .assertion ∨ ∃ t, r = .ok t ∧ Moved s t := by
  cases e with
  | start fid umiId =>
    simp only [State.step, Option.ite_none_right_eq_some, Option.some.injEq] at hs
    rcases hs with ⟨⟨hnonzero, hfresh⟩, rfl⟩
    exact .inr ⟨_, rfl, .started fid umiId hnonzero hfresh rfl⟩
  | hotStart fid managed =>
    simp only [State.step, Option.ite_none_right_eq_some, Option.some.injEq] at hs
    rcases hs with ⟨hkeeps, rfl⟩
    exact .inr (h.processHotStart_cases fid hkeeps)
  | closed k managed =>
    simp only [State.step, Option.ite_none_right_eq_some, Option.map_eq_some_iff] at hs
    rcases hs with ⟨hkeeps, session, hsession, rfl⟩
    exact h.sessionClosed_cases hsession hkeeps
  | aborted k =>
    simp only [State.step, Option.map_eq_some_iff] at hs
    rcases hs with ⟨session, hsession, rfl⟩
    exact .inr ⟨_, rfl, .discarded k session hsession rfl⟩
  | signalHalt k =>
    simp only [State.step, Option.map_eq_some_iff] at hs
    rcases hs with ⟨umiId, hpending, rfl⟩
    exact .inr ⟨_, rfl, .halted k umiId hpending rfl⟩

theorem Inv.moved (h : Inv s) (hmoved : Moved s t) : Inv t := by
  cases hmoved with
  | started fid umiId hnonzero hfresh ht =>
    subst ht
    refine ⟨h.listing, h.size_le, ?_, ?_, ?_⟩
    . intro u
      have hplaces := h.places u
      have hsessions := Pool.count_put OpenSession.umiId s.sessions ⟨fid, umiId⟩ u
      dsimp only at hsessions
      have hcreated := Pool.count_put id s.created umiId u
      simp only [List.map_id, id_eq] at hcreated
      simp only [State.places, State.halts] at hplaces ⊢
      omega
    . rw [List.nodup_append]
      refine ⟨h.nodup, List.nodup_singleton _, ?_⟩
      intro a ha b hb hab
      rw [List.mem_singleton] at hb
      exact hfresh (hb ▸ hab ▸ ha)
    . simp only [List.mem_append, List.mem_singleton, not_or]
      exact ⟨h.nonzero, hnonzero.symm⟩
  | missed ht =>
    subst ht
    exact h
  | resumed fid umiId hfind ht =>
    subst ht
    refine ⟨?_, ?_, ?_, h.nodup, h.nonzero⟩
    . dsimp only
      rw [AList.keys_erase]
      exact h.listing.erase fid
    . exact Nat.le_trans (UnorderedMap.size_erase_le _ fid) h.size_le
    . intro u
      have hplaces := h.places u
      have hsessions := Pool.count_put OpenSession.umiId s.sessions ⟨fid, umiId⟩ u
      dsimp only at hsessions
      have hvalues := (UnorderedMap.values_erase_of_find?_some hfind).count_eq u
      rw [List.count_cons] at hvalues
      simp only [beq_iff_eq] at hvalues
      simp only [State.places, State.halts] at hplaces ⊢
      omega
  | saved k session hsession hsize hfree ht =>
    subst ht
    refine ⟨?_, ?_, ?_, h.nodup, h.nonzero⟩
    . dsimp only
      have hkeys : session.fid ∉ s.hot.stalledInstanceMap.keys := by
        rw [← AList.mem_keys]
        exact UnorderedMap.find?_eq_none.mp hfree
      rw [AList.keys_insert, List.erase_of_not_mem hkeys]
      exact (h.listing.append_right _).trans (List.perm_append_singleton _ _)
    . dsimp only
      rw [UnorderedMap.size_insert_of_find?_none _ hfree]
      exact hsize
    . intro u
      have hplaces := h.places u
      have hsessions := Pool.count_take OpenSession.umiId hsession u
      have hvalues := UnorderedMap.values_insert_of_find?_none session.umiId hfree
      simp only [State.places, State.halts, hvalues, List.count_cons, beq_iff_eq] at hplaces ⊢
      omega
  | discarded k session hsession ht =>
    subst ht
    refine ⟨h.listing, h.size_le, ?_, h.nodup, h.nonzero⟩
    intro u
    have hplaces := h.places u
    have hsessions := Pool.count_take OpenSession.umiId hsession u
    have hpending := Pool.count_put id s.pendingHalts session.umiId u
    simp only [List.map_id, id_eq] at hpending
    simp only [State.places, State.halts] at hplaces ⊢
    omega
  | halted k umiId hpending ht =>
    subst ht
    refine ⟨h.listing, h.size_le, ?_, h.nodup, h.nonzero⟩
    intro u
    have hplaces := h.places u
    have htake := Pool.count_take id hpending u
    have hput := Pool.count_put id s.halted umiId u
    simp only [List.map_id, id_eq] at htake hput
    simp only [State.places, State.halts] at hplaces ⊢
    omega

theorem hotInstanceLimit_of_moved (h : Moved s t) :
    t.hot.hotInstanceLimit = s.hot.hotInstanceLimit := by
  cases h <;> subst t <;> rfl

theorem Inv.of_reachable {limit reuseLimit : UInt16}
    (h : (machine build limit reuseLimit).Reachable s) :
    Inv s ∧ s.hot.hotInstanceLimit = limit := by
  refine h.invariant (P := fun s => Inv s ∧ s.hot.hotInstanceLimit = limit)
    ⟨Inv.new limit reuseLimit, rfl⟩ ?_
  rintro s e t _ ⟨hinv, hlimit⟩ he
  rcases hinv.step_cases (Machine.bind_toOption_eq_some.mp he) with herror | ⟨u, hu, hmoved⟩
  . cases herror
  . cases hu
    refine ⟨hinv.moved hmoved, ?_⟩
    rw [hotInstanceLimit_of_moved hmoved]
    exact hlimit

end step

structure Bookkeeping (limit : UInt16) (s : State) : Prop where
  fifo_nodup : s.hot.stalledInstanceFifo.Nodup
  mem_fifo : ∀ fid,
    fid ∈ s.hot.stalledInstanceFifo ↔ ∃ u, s.hot.stalledInstanceMap.find? fid = some u
  size_le : s.hot.stalledInstanceMap.size ≤ limit.toNat
  oneFunction : ∀ fid fid' u, s.hot.stalledInstanceMap.find? fid = some u →
    s.hot.stalledInstanceMap.find? fid' = some u → fid = fid'
  idle : ∀ fid u, s.hot.stalledInstanceMap.find? fid = some u →
    (∀ session ∈ s.sessions, session.umiId ≠ u) ∧ s.halts u = 0
  ended : ∀ u ∈ s.created, (∀ session ∈ s.sessions, session.umiId ≠ u) →
    (∃ fid, s.hot.stalledInstanceMap.find? fid = some u) ∨ s.halts u = 1

section bookkeeping

variable {s : State} {fid fid' : UInt64} {u : UmiId}

theorem Inv.oneFunction (h : Inv s) (hfid : s.hot.stalledInstanceMap.find? fid = some u)
    (hfid' : s.hot.stalledInstanceMap.find? fid' = some u) :
    fid = fid' := by
  by_contra hne
  have hother : u ∈ UnorderedMap.values (AList.erase fid s.hot.stalledInstanceMap) := by
    rw [UnorderedMap.mem_values]
    refine ⟨fid', ?_⟩
    rw [UnorderedMap.find?_erase_ne _ (Ne.symm hne)]
    exact hfid'
  rw [← List.count_pos_iff] at hother
  have hvalues := (UnorderedMap.values_erase_of_find?_some hfid).count_eq u
  rw [List.count_cons_self] at hvalues
  have hle := h.places_le u
  unfold State.places at hle
  omega

theorem Inv.not_open_of_idle (h : Inv s) (hfid : s.hot.stalledInstanceMap.find? fid = some u) :
    ∀ session ∈ s.sessions, session.umiId ≠ u := by
  intro session hsession hu
  have hopen : u ∈ s.sessions.map OpenSession.umiId := by
    rw [← hu]
    exact List.mem_map_of_mem hsession
  rw [← List.count_pos_iff] at hopen
  have hpos := s.mem_values hfid
  have hle := h.places_le u
  unfold State.places at hle
  omega

theorem Inv.idle_or_halted (h : Inv s) (hcreated : u ∈ s.created)
    (hclosed : ∀ session ∈ s.sessions, session.umiId ≠ u) :
    (∃ fid, s.hot.stalledInstanceMap.find? fid = some u) ∨ s.halts u = 1 := by
  have hsessions : (s.sessions.map OpenSession.umiId).count u = 0 := by
    rw [List.count_eq_zero, List.mem_map]
    rintro ⟨session, hsession, hu⟩
    exact hclosed session hsession hu
  have hplaces := h.places u
  rw [List.count_eq_one_of_mem h.nodup hcreated] at hplaces
  by_cases hidle : u ∈ s.hot.stalledInstanceMap.values
  . exact .inl (UnorderedMap.mem_values.mp hidle)
  . rw [← List.count_eq_zero] at hidle
    unfold State.places at hplaces
    exact .inr (by omega)

end bookkeeping

/--
The idle instances of a core stay in step with the sessions and the halts, and no step of it aborts
with `kabort`.
-/
theorem bookkeeping_of_reachable {limit reuseLimit : UInt16} {s : State}
    (h : (machine build limit reuseLimit).Reachable s) :
    Bookkeeping limit s ∧ ∀ e, s.step build e ≠ some (.error .kabort) := by
  rcases Inv.of_reachable h with ⟨hinv, hlimit⟩
  refine ⟨⟨?_, ?_, ?_, ?_, ?_, ?_⟩, ?_⟩
  . exact hinv.listing.nodup_iff.mpr s.hot.stalledInstanceMap.keys_nodup
  . intro fid
    rw [hinv.listing.mem_iff, ← AList.mem_keys, UnorderedMap.mem_iff_find?]
  . rw [← hlimit]
    exact hinv.size_le
  . intro fid fid' u
    exact hinv.oneFunction
  . intro fid u hfid
    exact ⟨hinv.not_open_of_idle hfid, hinv.halts_of_idle hfid⟩
  . intro u
    exact hinv.idle_or_halted
  . intro e hs
    rcases hinv.step_cases hs with hfault | ⟨t, ht, _⟩
    . cases hfault
    . cases ht

-- Two functions, one place: the second instance finds no room and is halted.
def twoFunctions : List Event :=
  [
    .start 1 7,
    .start 2 8,
    .closed 0 (fun _ => true),
    .closed 0 (fun _ => true),
    .signalHalt 0,
    .hotStart 1 (fun _ => true),
    .aborted 0
  ]

theorem twoFunctions_run : ((machine .debug 1 0).run twoFunctions).isSome := by
  decide

theorem bookkeeping_of_reachable_twoFunctions :
    ∃ s, (machine .debug 1 0).run twoFunctions = some s
      ∧ (s.pendingHalts, s.halted) = ([7], [8])
      ∧ Bookkeeping 1 s := by
  have hrun := (Option.some_get twoFunctions_run).symm
  exact ⟨_, hrun, by decide, (bookkeeping_of_reachable .debug ⟨_, hrun⟩).1⟩

end Idle
end Invoker
end Seuss
