import Seuss.Invoker.IdleInstances

/-!
This module contains how often the instances of a core are used again, compared with the reuse limit.
-/

namespace Seuss
namespace Invoker

namespace HotInstances

variable {build : Build} {managed : UmiId → Bool} {c c' : HotInstances} {fid : UInt64} {umiId : UmiId}

-- how often an instance has been saved, as far as the core knows
def usageCount (c : HotInstances) (id : UmiId) : Nat :=
  match c.stalledInstanceUsageCount.find? id with
  | some count => count.toNat
  | none => 0

/--
An instance is refused where there is no room for it, where its function has one already, or where its
count is above the limit.
-/
theorem saveHotInstance_eq_false
    (h : c.saveHotInstance build managed fid umiId = .ok (c', false))
    (hsize : c.stalledInstanceMap.size < c.hotInstanceLimit.toNat)
    (hfree : c.stalledInstanceMap.find? fid = none) :
    c.hotInstanceReuseLimit.toNat < c.usageCount umiId := by
  simp only [saveHotInstance, hotInstanceCanBeReused, bind, Except.bind] at h
  split at h
  . cases h
  . split at h
    . cases h
    . split at h
      . cases h
      . next hreuse =>
        split at hreuse
        . cases hreuse
        . rw [if_neg (by omega)] at hreuse
          unfold usageCount
          cases hcount : c.stalledInstanceUsageCount.find? umiId with
          | some count =>
            rw [hcount] at hreuse
            cases hreuse
            simp only [hotInstanceExists, hfree, Option.isSome_none, Bool.or_false,
              Bool.not_eq_eq_eq_not, Bool.not_true, decide_eq_false_iff_not] at h
            split at h
            . next hgt => exact Nat.lt_of_not_le fun hle => hgt (UInt16.le_iff_toNat_le.mpr hle)
            . split at h <;> cases h
          | none =>
            rw [hcount] at hreuse
            cases hreuse
            simp only [hotInstanceExists, hfree, Option.isSome_none, Bool.not_true, Bool.or_false,
              Bool.false_eq_true, ↓reduceIte] at h
            split at h <;> cases h

end HotInstances

namespace Idle

variable (build : Build)

-- the instance that a step takes for a hot start
def State.hotStarted (s : State) (e : Event) : Option UmiId :=
  match e with
  | .hotStart fid managed =>
    match s.hot.takeHotInstance managed fid with
    | .ok (_, taken) => taken
    | .error _ => none
  | _ => none

-- the instance that a step saves for a hot start
def State.saves (s : State) (e : Event) : Option UmiId :=
  match e with
  | .closed k managed =>
    s.sessions[k]?.bind fun session =>
      match s.hot.saveHotInstance build managed session.fid session.umiId with
      | .ok (_, true) => some session.umiId
      | _ => none
  | _ => none

/--
A core with the hot starts its instances have served and how often they have been saved for one.
-/
structure Life where
  core : State
  hotStarts : List UmiId
  saved : List UmiId

def lifeMachine (limit reuseLimit : UInt16) : Machine Life Event where
  init := { core := .new limit reuseLimit, hotStarts := [], saved := [] }
  step s e := ((s.core.step build e).bind Except.toOption).map fun core =>
    {
      core
      hotStarts := s.hotStarts ++ (s.core.hotStarted e).toList
      saved := s.saved ++ (s.core.saves build e).toList
    }

/--
No instance is to be saved once more that has been saved as often as the limit says.
-/
def State.Spares (s : State) (e : Event) : Prop :=
  ∀ k managed session, e = .closed k managed → s.sessions[k]? = some session →
    s.hot.stalledInstanceMap.size < s.hot.hotInstanceLimit.toNat →
    s.hot.stalledInstanceMap.find? session.fid = none →
    s.hot.usageCount session.umiId ≠ s.hot.hotInstanceReuseLimit.toNat

/--
What a step does to the idle instances and to what has been counted of them.
-/
inductive LifeMoved (s t : Life) (e : Event) : Prop where
  | kept (hhot : t.core.hot = s.core.hot) (hstarts : t.hotStarts = s.hotStarts)
      (hsaved : t.saved = s.saved)
      (hfull : ∀ k managed session, e = .closed k managed → s.core.sessions[k]? = some session →
        s.core.hot.stalledInstanceMap.size < s.core.hot.hotInstanceLimit.toNat →
        s.core.hot.stalledInstanceMap.find? session.fid = none →
        s.core.hot.hotInstanceReuseLimit.toNat < s.core.hot.usageCount session.umiId)
  | resumed (fid : UInt64) (umiId : UmiId) (hevent : ∃ managed, e = .hotStart fid managed)
      (hfind : s.core.hot.stalledInstanceMap.find? fid = some umiId)
      (hhot : t.core.hot = {
        s.core.hot with
        stalledInstanceMap := AList.erase fid s.core.hot.stalledInstanceMap
        stalledInstanceFifo := s.core.hot.stalledInstanceFifo.erase fid
      })
      (hstarts : t.hotStarts = s.hotStarts ++ [umiId]) (hsaved : t.saved = s.saved)
  | saved (k : Nat) (session : OpenSession) (hevent : ∃ managed, e = .closed k managed)
      (hsession : s.core.sessions[k]? = some session)
      (hsize : s.core.hot.stalledInstanceMap.size < s.core.hot.hotInstanceLimit.toNat)
      (hfree : s.core.hot.stalledInstanceMap.find? session.fid = none)
      (hhot : t.core.hot = {
        s.core.hot.increaseUsageCount session.umiId with
        stalledInstanceMap := AList.insert session.fid session.umiId s.core.hot.stalledInstanceMap
        stalledInstanceFifo := s.core.hot.stalledInstanceFifo ++ [session.fid]
      })
      (hstarts : t.hotStarts = s.hotStarts) (hsaved : t.saved = s.saved ++ [session.umiId])

section step

variable {build} {s t : Life} {e : Event} {limit reuseLimit : UInt16}

theorem step_eq_some (h : (lifeMachine build limit reuseLimit).step s e = some t) :
    s.core.step build e = some (.ok t.core)
      ∧ t.hotStarts = s.hotStarts ++ (s.core.hotStarted e).toList
      ∧ t.saved = s.saved ++ (s.core.saves build e).toList := by
  simp only [lifeMachine, Option.map_eq_some_iff] at h
  rcases h with ⟨core, hcore, rfl⟩
  exact ⟨Machine.bind_toOption_eq_some.mp hcore, rfl, rfl⟩

theorem lifeMoved_of_hotStart (hinv : Inv s.core) {fid : UInt64} {managed : UmiId → Bool}
    (h : (lifeMachine build limit reuseLimit).step s (.hotStart fid managed) = some t) :
    LifeMoved s t (.hotStart fid managed) := by
  rcases step_eq_some h with ⟨hcore, hstarts, hsaved⟩
  simp only [State.step, Option.ite_none_right_eq_some, Option.some.injEq] at hcore
  rcases hcore with ⟨hkeeps, hcore⟩
  simp only [State.processHotStart, State.hotStarted] at hcore hstarts
  simp only [State.saves, Option.toList_none, List.append_nil] at hsaved
  rcases HotInstances.takeHotInstance_cases managed s.core.hot fid with hmiss | ⟨u, hfind, htake⟩
  . rw [hmiss] at hcore hstarts
    have hhot : t.core.hot = s.core.hot := by
      rw [← Except.ok.inj hcore]
    refine .kept hhot (by simpa using hstarts) hsaved ?_
    intro k managed session he
    cases he
  . have hcreated := hinv.created_of_idle hfind
    have hmanaged : managed u = true := hkeeps.managed hcreated (hinv.halts_of_idle hfind)
    have hnonzero : u ≠ 0 := by
      intro hu
      exact hinv.nonzero (hu ▸ hcreated)
    rw [htake] at hcore hstarts
    simp only [hnonzero, hmanaged, decide_false, Bool.not_true, Bool.or_false, Bool.false_eq_true,
      ↓reduceIte, bind, Except.bind] at hcore hstarts
    have hhot : t.core.hot = {
        s.core.hot with
        stalledInstanceMap := AList.erase fid s.core.hot.stalledInstanceMap
        stalledInstanceFifo := s.core.hot.stalledInstanceFifo.erase fid
      } := by
      rw [← Except.ok.inj hcore]
    exact .resumed fid u ⟨managed, rfl⟩ hfind hhot hstarts hsaved

theorem lifeMoved_of_closed (hinv : Inv s.core) {k : Nat} {managed : UmiId → Bool}
    (h : (lifeMachine build limit reuseLimit).step s (.closed k managed) = some t) :
    LifeMoved s t (.closed k managed) := by
  rcases step_eq_some h with ⟨hcore, hstarts, hsaved⟩
  simp only [State.step, Option.ite_none_right_eq_some, Option.map_eq_some_iff] at hcore
  rcases hcore with ⟨hkeeps, session, hsession, hcore⟩
  have hmanaged : managed session.umiId = true :=
    hkeeps.managed (hinv.created_of_open hsession) (hinv.halts_of_open hsession)
  simp only [State.saves, hsession, Option.bind_some] at hsaved
  simp only [State.hotStarted, Option.toList_none, List.append_nil] at hstarts
  unfold State.sessionClosed at hcore
  dsimp only at hcore
  rcases HotInstances.saveHotInstance_cases build managed s.core.hot session.fid session.umiId with
    hfault | hfull | ⟨hsize, hfree, hsave⟩
  . rw [hfault] at hcore
    cases hcore
  . rw [hfull] at hcore hsaved
    have hhot : t.core.hot = s.core.hot := by
      rw [← Except.ok.inj hcore]
    refine .kept hhot hstarts (by simpa using hsaved) ?_
    intro j managed' session' he hsession' hsize hfree
    cases he
    cases hsession.symm.trans hsession'
    exact HotInstances.saveHotInstance_eq_false hfull hsize hfree
  . rw [hsave, hmanaged] at hcore hsaved
    have hhot : t.core.hot = {
        s.core.hot.increaseUsageCount session.umiId with
        stalledInstanceMap := AList.insert session.fid session.umiId s.core.hot.stalledInstanceMap
        stalledInstanceFifo := s.core.hot.stalledInstanceFifo ++ [session.fid]
      } := by
      rw [← Except.ok.inj hcore]
    exact .saved k session ⟨managed, rfl⟩ hsession hsize hfree hhot hstarts (by simpa using hsaved)

theorem lifeMoved_of_step (hinv : Inv s.core)
    (h : (lifeMachine build limit reuseLimit).step s e = some t) :
    LifeMoved s t e := by
  rcases step_eq_some h with ⟨hcore, hstarts, hsaved⟩
  cases e with
  | hotStart fid managed => exact lifeMoved_of_hotStart hinv h
  | closed k managed => exact lifeMoved_of_closed hinv h
  | start fid umiId =>
    simp only [State.step, Option.ite_none_right_eq_some, Option.some.injEq, Except.ok.injEq] at hcore
    rcases hcore with ⟨_, hcore⟩
    refine .kept ?_ (by simpa [State.hotStarted] using hstarts) (by simpa [State.saves] using hsaved) ?_
    . rw [← hcore]
    . intro k managed session he
      cases he
  | aborted k =>
    simp only [State.step, Option.map_eq_some_iff, Except.ok.injEq] at hcore
    rcases hcore with ⟨session, _, hcore⟩
    refine .kept ?_ (by simpa [State.hotStarted] using hstarts) (by simpa [State.saves] using hsaved) ?_
    . rw [← hcore]
    . intro k managed session he
      cases he
  | signalHalt k =>
    simp only [State.step, Option.map_eq_some_iff, Except.ok.injEq] at hcore
    rcases hcore with ⟨umiId, _, hcore⟩
    refine .kept ?_ (by simpa [State.hotStarted] using hstarts) (by simpa [State.saves] using hsaved) ?_
    . rw [← hcore]
    . intro k managed session he
      cases he

/--
What has been counted of an instance: it has been saved once for each of its hot starts and once more
while it is idle, and the core knows the number modulo 2^16.
-/
structure Counted (reuseLimit : UInt16) (s : Life) : Prop where
  balance : ∀ u, s.saved.count u
    = s.hotStarts.count u + s.core.hot.stalledInstanceMap.values.count u
  stored : ∀ u, s.core.hot.stalledInstanceUsageCount.find? u
    = if s.saved.count u = 0 then none else some (.ofNat (s.saved.count u))
  reuseLimit : s.core.hot.hotInstanceReuseLimit = reuseLimit

theorem Counted.usageCount_eq (h : Counted reuseLimit s) (u : UmiId) :
    s.core.hot.usageCount u = s.saved.count u % 65536 := by
  unfold HotInstances.usageCount
  rw [h.stored]
  split
  . next hsome =>
    split at hsome
    . cases hsome
    . cases hsome
      rw [UInt16.toNat_ofNat']
  . next hnone =>
    split at hnone
    . next hzero => rw [hzero]
    . cases hnone

theorem Counted.moved (h : Counted reuseLimit s) (hmoved : LifeMoved s t e) :
    Counted reuseLimit t := by
  cases hmoved with
  | kept hhot hstarts hsaved _ =>
    constructor
    . rw [hhot, hstarts, hsaved]
      exact h.balance
    . rw [hhot, hsaved]
      exact h.stored
    . rw [hhot]
      exact h.reuseLimit
  | resumed fid umiId _ hfind hhot hstarts hsaved =>
    constructor
    . intro u
      have hbalance := h.balance u
      have hvalues := (UnorderedMap.values_erase_of_find?_some hfind).count_eq u
      rw [hhot, hstarts, hsaved, List.count_append, List.count_singleton]
      rw [List.count_cons] at hvalues
      dsimp only
      omega
    . rw [hhot, hsaved]
      exact h.stored
    . rw [hhot]
      exact h.reuseLimit
  | saved k session _ _ _ hfree hhot hstarts hsaved =>
    constructor
    . intro u
      have hbalance := h.balance u
      have hvalues := UnorderedMap.values_insert_of_find?_none session.umiId hfree
      rw [hhot, hstarts, hsaved, List.count_append, List.count_singleton]
      dsimp only
      rw [hvalues, List.count_cons]
      omega
    . intro u
      have hstored := h.stored u
      rw [hhot, hsaved, List.count_append, List.count_singleton]
      simp only [HotInstances.increaseUsageCount, UnorderedMap.find?_insert]
      by_cases hu : u = session.umiId
      . subst hu
        rw [hstored]
        simp only [beq_self_eq_true, ↓reduceIte, Nat.add_eq_zero_iff, one_ne_zero, and_false]
        split
        . next hsome =>
          split at hsome
          . cases hsome
          . cases hsome
            rw [UInt16.ofNat_add]
            rfl
        . next hnone =>
          split at hnone
          . next hzero =>
            rw [hzero]
            rfl
          . cases hnone
      . have hbeq : (session.umiId == u) = false := beq_eq_false_iff_ne.mpr (Ne.symm hu)
        rw [if_neg hu, hbeq]
        exact hstored
    . rw [hhot]
      exact h.reuseLimit

theorem counted_of_reachable (h : (lifeMachine build limit reuseLimit).Reachable s) :
    Inv s.core ∧ Counted reuseLimit s := by
  refine h.invariant (P := fun s => Inv s.core ∧ Counted reuseLimit s)
    ⟨Inv.new limit reuseLimit, fun _ => rfl, fun _ => rfl, rfl⟩ ?_
  rintro s e t _ ⟨hinv, hcounted⟩ he
  refine ⟨?_, hcounted.moved (lifeMoved_of_step hinv he)⟩
  rcases hinv.step_cases (step_eq_some he).1 with herror | ⟨u, hu, hmoved⟩
  . cases herror
  . rw [Except.ok.inj hu]
    exact hinv.moved hmoved

end step

/--
No instance serves more hot starts than the limit says, the use counts are what they say, and what is
idle may serve one more.
-/
structure Limited (reuseLimit : UInt16) (s : Life) : Prop where
  hotStarts : ∀ u, s.hotStarts.count u ≤ reuseLimit.toNat
  usageCount : ∀ u, s.core.hot.usageCount u = s.saved.count u
  idle : ∀ fid u, s.core.hot.stalledInstanceMap.find? fid = some u →
    s.hotStarts.count u < reuseLimit.toNat

section limited

variable {build} {s t : Life} {e : Event} {limit reuseLimit : UInt16}

theorem Counted.limited_iff (h : Counted reuseLimit s) (hinv : Inv s.core) :
    Limited reuseLimit s ↔ ∀ u, s.saved.count u ≤ reuseLimit.toNat := by
  constructor
  . intro hlimited u
    have hbalance := h.balance u
    have hplaces := hinv.places_le u
    unfold State.places at hplaces
    by_cases hidle : u ∈ s.core.hot.stalledInstanceMap.values
    . rcases UnorderedMap.mem_values.mp hidle with ⟨fid, hfid⟩
      have hlt := hlimited.idle fid u hfid
      omega
    . rw [← List.count_eq_zero] at hidle
      have hle := hlimited.hotStarts u
      omega
  . intro hsaved
    constructor
    . intro u
      have hbalance := h.balance u
      have hle := hsaved u
      omega
    . intro u
      have hle := hsaved u
      have hlt := reuseLimit.toNat_lt
      rw [h.usageCount_eq, Nat.mod_eq_of_lt (by omega)]
    . intro fid u hfid
      have hpos := s.core.mem_values hfid
      have hbalance := h.balance u
      have hle := hsaved u
      omega

theorem step_limited_iff (hinv : Inv s.core) (hcounted : Counted reuseLimit s)
    (hs : Limited reuseLimit s) (hinvt : Inv t.core)
    (h : (lifeMachine build limit reuseLimit).step s e = some t) :
    Limited reuseLimit t ↔ s.core.Spares e := by
  have hmoved := lifeMoved_of_step hinv h
  rw [(hcounted.moved hmoved).limited_iff hinvt]
  have hle := (hcounted.limited_iff hinv).mp hs
  cases hmoved with
  | kept _ _ hsaved hfull =>
    rw [hsaved]
    refine ⟨fun _ => ?_, fun _ => hle⟩
    intro k managed session he hsession hsize hfree
    have hlt := hfull k managed session he hsession hsize hfree
    omega
  | resumed _ _ hevent _ _ _ hsaved =>
    rw [hsaved]
    refine ⟨fun _ => ?_, fun _ => hle⟩
    intro k managed session he
    rcases hevent with ⟨managed', rfl⟩
    cases he
  | saved k session hevent hsession hsize hfree _ _ hsaved =>
    rcases hevent with ⟨managed, rfl⟩
    rw [hsaved]
    have hcount := hs.usageCount session.umiId
    constructor
    . intro hsaves j managed' session' he hsession' _ _
      cases he
      cases hsession.symm.trans hsession'
      have hnext := hsaves session.umiId
      rw [List.count_append, List.count_singleton_self] at hnext
      rw [hcount, hcounted.reuseLimit]
      omega
    . intro hspares u
      have hne := hspares k managed session rfl hsession hsize hfree
      rw [hcount, hcounted.reuseLimit] at hne
      have hsession := hle session.umiId
      have hu := hle u
      rw [List.count_append, List.count_singleton]
      by_cases heq : session.umiId = u
      . subst heq
        rw [beq_self_eq_true, if_pos rfl]
        omega
      . rw [beq_eq_false_iff_ne.mpr heq, if_neg Bool.false_ne_true]
        omega

end limited

/--
The reuse limit has been kept in every state of a run just if no step of the run was to save an instance
that had been saved as often as the limit says: `hot_instance_can_be_reused` lets such an instance pass.
-/
theorem limited_iff_spares {limit reuseLimit : UInt16} {evs : List Event} {s : Life}
    (h : (lifeMachine build limit reuseLimit).run evs = some s) :
    (∀ before t, before <+: evs → (lifeMachine build limit reuseLimit).run before = some t →
        Limited reuseLimit t)
      ↔
    ∀ before e t, before ++ [e] <+: evs → (lifeMachine build limit reuseLimit).run before = some t →
      t.core.Spares e := by
  refine (lifeMachine build limit reuseLimit).forall_state_iff (P := Limited reuseLimit)
    (C := fun s e => s.core.Spares e) ?_ ?_ h
  . constructor
    . intro u
      exact Nat.zero_le _
    . intro u
      rfl
    . intro fid u hfid
      cases hfid
  . intro s e t hreachable hs he
    rcases counted_of_reachable hreachable with ⟨hinv, hcounted⟩
    have hinvt := (counted_of_reachable (hreachable.step he)).1
    exact step_limited_iff hinv hcounted hs hinvt he

-- One hot start, as the limit allows, and the session of it is aborted.
def oneHotStart : List Event :=
  [.start 1 7, .closed 0 (fun _ => true), .hotStart 1 (fun _ => true), .aborted 0]

theorem oneHotStart_run : ((lifeMachine .debug 1 1).run oneHotStart).isSome := by
  decide

theorem limited_iff_spares_oneHotStart :
    (∀ before t, before <+: oneHotStart → (lifeMachine .debug 1 1).run before = some t → Limited 1 t)
      ↔
    ∀ before e t, before ++ [e] <+: oneHotStart → (lifeMachine .debug 1 1).run before = some t →
      t.core.Spares e := by
  exact limited_iff_spares .debug (Option.some_get oneHotStart_run).symm

-- The instance serves a second hot start although the limit is one.
def secondHotStart : List Event :=
  [
    .start 1 7,
    .closed 0 (fun _ => true),
    .hotStart 1 (fun _ => true),
    .closed 0 (fun _ => true),
    .hotStart 1 (fun _ => true)
  ]

theorem secondHotStart_run : ((lifeMachine .debug 1 1).run secondHotStart).isSome := by
  decide

theorem secondHotStart_exceeds_limit :
    ∃ s, (lifeMachine .debug 1 1).run secondHotStart = some s
      ∧ s.hotStarts = [7, 7]
      ∧ ¬ Limited 1 s := by
  refine ⟨_, (Option.some_get secondHotStart_run).symm, by decide, ?_⟩
  intro h
  have hle := h.hotStarts 7
  exact absurd hle (by decide)

end Idle
end Invoker
end Seuss
