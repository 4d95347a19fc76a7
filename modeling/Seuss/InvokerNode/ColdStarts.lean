import Seuss.Data.Tally
import Seuss.InvokerNode.Instances

/-!
This module contains how often a function is started cold. The cores do not agree on who makes the first
snapshot of a function, so that every invocation that is in flight at that time can start it cold, and no
later one does unless it has been aborted in a warm start.
-/

namespace Seuss
namespace InvokerNode

open Invoker Deployment

variable {n : Nat} {build : Build} {limit hotLimit reuseLimit : UInt16} {s t : State n}
variable {fid : UInt64}

-- An instance that got as far as to answer has passed its checkpoint.
def CapturesFirst (s : State n) (e : Event n) : Prop :=
  match e with
  | .closed c _ j _ =>
    match (s.idle c).sessions[j]? with
    | some session => session.umiId ∉ s.checkpoints.map Checkpoint.umiId
    | none => True
  | _ => True

instance (s : State n) (e : Event n) : Decidable (CapturesFirst s e) := by
  unfold CapturesFirst
  split
  . split <;> infer_instance
  . infer_instance

def Stage.IsCold (stage : Stage) : Prop :=
  match stage with
  | .trying .cold | .blocked .cold _ | .failed => True
  | _ => False

instance (stage : Stage) : Decidable stage.IsCold := by
  unfold Stage.IsCold
  split <;> infer_instance

def awaitsColdStart (fid : UInt64) (a : Active) : Nat :=
  if a.fid = fid ∧ a.stage = .trying .cold then 1 else 0

def inColdStart (fid : UInt64) (a : Active) : Nat :=
  if a.fid = fid ∧ a.stage.IsCold then 1 else 0

def State.coldStarts (s : State n) (fid : UInt64) : Nat :=
  s.opened.count { path := .cold, fid := fid }

def State.warmAborts (s : State n) (fid : UInt64) : Nat :=
  s.aborted.count { path := .warm, fid := fid }

-- the cold starts that there have been or will be
def State.committed (s : State n) (fid : UInt64) : Nat :=
  s.coldStarts fid + Tally.tally (awaitsColdStart fid) s.active

section cache

variable {root root' : InvokerRoot} {sv : SnapshotId} {fate : InvokerRoot.SnapshotFate}

theorem find?_of_setSnapshot {fid' : UInt64} (h : root.setSnapshot build fid' sv = .ok (root', fate))
    (hnone : root'.snapmap.find? fid = none) :
    root.snapmap.find? fid = none := by
  cases fate with
  | stored =>
    rcases InvokerRoot.setSnapshot_eq_stored h with ⟨_, _, rfl⟩
    rw [UnorderedMap.find?_insert] at hnone
    split at hnone
    . cases hnone
    . exact hnone
  | deleted =>
    rw [InvokerRoot.setSnapshot_eq_deleted h] at hnone
    exact hnone

theorem find?_setSnapshot_self (hroom : root.cacheIsFull = false)
    (h : root.setSnapshot build fid sv = .ok (root', fate)) :
    root'.snapmap.find? fid ≠ none := by
  simp only [InvokerRoot.setSnapshot, hroom, bind, Except.bind] at h
  split at h
  . cases h
  . split at h
    . next hfind =>
      cases h
      simp [hfind]
    . next hfind =>
      simp only [UnorderedMap.emplace_of_find?_none _ hfind, Build.kassert_true] at h
      cases h
      simp

theorem cacheIsFull_of_setSnapshot {fid' : UInt64}
    (h : root.setSnapshot build fid' sv = .ok (root', fate)) (hroom : root'.cacheIsFull = false) :
    root.cacheIsFull = false := by
  cases fate with
  | stored =>
    rcases InvokerRoot.setSnapshot_eq_stored h with ⟨_, hsize, _⟩
    simpa [InvokerRoot.cacheIsFull] using hsize
  | deleted =>
    rw [InvokerRoot.setSnapshot_eq_deleted h] at hroom
    exact hroom

theorem snapmap_of_step {node node' : Node n} {e : Invoker.Event n}
    (h : node.step build limit e = some (.ok node')) :
    node'.root.snapmap = node.root.snapmap := by
  cases e with
  | addWork mine i =>
    simp only [Node.step, Option.some.injEq, Node.addWork, bind, Except.bind] at h
    split at h
    . cases h
    . next hadd =>
      cases h
      exact (InvokerRoot.addWork_requestMap hadd).2
  | poke c =>
    rcases step_poke_eq_ok h with ⟨hroot, _⟩ | ⟨i, hwork, _⟩
    . rw [hroot]
    . rcases InvokerRoot.getWork_eq_some hwork with ⟨_, _, _, _, hsnapmap⟩
      exact hsnapmap
  | leave c k =>
    simp only [Node.step, Option.ite_none_right_eq_some, Option.some.injEq, Except.ok.injEq] at h
    rw [← h.2]

end cache

section counting

variable {c : Fin n} {k : Nat} {a : Active} {stage : Stage} {e : Event n}

/--
What a step does to the cold starts of one function.
-/
inductive ColdStep (fid : UInt64) (s t : State n) : Prop where
  | same (hcommitted : t.committed fid = s.committed fid)
      (hactive : Tally.tally (inColdStart fid) t.active = Tally.tally (inColdStart fid) s.active)
      (haborts : t.warmAborts fid = s.warmAborts fid)
  -- no snapshot was found
  | missed (huncached : t.node.root.snapmap.find? fid = none)
      (hcommitted : t.committed fid = s.committed fid + 1)
      (hactive : Tally.tally (inColdStart fid) t.active = Tally.tally (inColdStart fid) s.active + 1)
      (haborts : t.warmAborts fid = s.warmAborts fid)
  | warmAborted (hcommitted : t.committed fid = s.committed fid + 1)
      (hactive : Tally.tally (inColdStart fid) t.active = Tally.tally (inColdStart fid) s.active + 1)
      (haborts : t.warmAborts fid = s.warmAborts fid + 1)
  | coldClosed (c : Fin n) (a : Active) (umiId : UmiId) (ha : a ∈ s.active c) (hfid : a.fid = fid)
      (hstage : a.stage = .blocked .cold umiId)
      (hcaptured : umiId ∉ s.checkpoints.map Checkpoint.umiId)
      (hcommitted : t.committed fid = s.committed fid)
      (haborts : t.warmAborts fid = s.warmAborts fid)

theorem count_opened (fid : UInt64) (l : List Opened) (o : Opened) (path : StartPath) :
    (l ++ [o]).count { path := path, fid := fid }
      =
    l.count { path := path, fid := fid } + if o.path = path ∧ o.fid = fid then 1 else 0 := by
  rcases o with ⟨path', fid'⟩
  rw [List.count_append, List.count_singleton]
  simp

theorem tally_awaitsColdStart (fid : UInt64) (ha : (s.active c)[k]? = some a) (stage : Stage) :
    Tally.tally (awaitsColdStart fid)
        (Function.update s.active c ((s.active c).set k { a with stage := stage }))
        + (if a.fid = fid ∧ a.stage = .trying .cold then 1 else 0)
      =
    Tally.tally (awaitsColdStart fid) s.active
      + if a.fid = fid ∧ stage = .trying .cold then 1 else 0 :=
  Tally.tally_set ha _

theorem tally_inColdStart (fid : UInt64) (ha : (s.active c)[k]? = some a) (stage : Stage) :
    Tally.tally (inColdStart fid)
        (Function.update s.active c ((s.active c).set k { a with stage := stage }))
        + (if a.fid = fid ∧ a.stage.IsCold then 1 else 0)
      =
    Tally.tally (inColdStart fid) s.active + if a.fid = fid ∧ stage.IsCold then 1 else 0 :=
  Tally.tally_set ha _

theorem weight_entered {f : Active → Nat} (before after : Core)
    (h : ∀ i, f { invocation := i, stage := .trying .hot } = 0) :
    Tally.weight f (entered before after) = 0 := by
  apply Tally.weight_eq_zero
  intro a ha
  rw [entered, List.mem_map] at ha
  rcases ha with ⟨i, _, rfl⟩
  exact h i

theorem coldStep_of_happens (hfirst : CapturesFirst s e) (h : Happens build limit s e t) :
    ColdStep fid s t := by
  cases h with
  | addWork => exact .same rfl rfl rfl
  | poke c node hnode =>
    have hwaiting := Tally.tally_put (f := awaitsColdStart fid) s.active c
      (entered (s.node.cores c) (node.cores c))
    have hactive := Tally.tally_put (f := inColdStart fid) s.active c
      (entered (s.node.cores c) (node.cores c))
    rw [weight_entered] at hwaiting hactive
    . exact .same (congrArg _ hwaiting) hactive rfl
    . intro i
      simp [inColdStart, Stage.IsCold]
    . intro i
      simp [awaitsColdStart]
  | hotMissed c k a umiId managed idle ha hstage =>
    have hwaiting := tally_awaitsColdStart fid ha (.trying .warm)
    have hactive := tally_inColdStart fid ha (.trying .warm)
    simp only [hstage, Stage.trying.injEq, reduceCtorEq, and_false, ↓reduceIte, Nat.add_zero] at hwaiting
    simp only [hstage, Stage.IsCold, and_false, ↓reduceIte, Nat.add_zero] at hactive
    exact .same (congrArg _ hwaiting) hactive rfl
  | hotStarted c k a umiId managed idle session ha hstage =>
    have hwaiting := tally_awaitsColdStart fid ha (.blocked .hot session.umiId)
    have hactive := tally_inColdStart fid ha (.blocked .hot session.umiId)
    have hopened := count_opened fid s.opened { path := .hot, fid := a.fid } .cold
    simp only [hstage, Stage.trying.injEq, reduceCtorEq, and_false, ↓reduceIte, Nat.add_zero] at hwaiting
    simp only [hstage, Stage.IsCold, and_false, ↓reduceIte, Nat.add_zero] at hactive
    simp only [reduceCtorEq, false_and, ↓reduceIte, Nat.add_zero] at hopened
    exact .same (congrArg₂ (· + ·) hopened hwaiting) hactive rfl
  | warmMissed c k a umiId managed ha hstage hsnapshot =>
    have hwaiting := tally_awaitsColdStart fid ha (.trying .cold)
    have hactive := tally_inColdStart fid ha (.trying .cold)
    simp only [hstage, Stage.trying.injEq, reduceCtorEq, and_false, and_true, ↓reduceIte,
      Nat.add_zero] at hwaiting
    simp only [hstage, Stage.IsCold, and_false, and_true, ↓reduceIte, Nat.add_zero] at hactive
    by_cases hfid : a.fid = fid
    . rw [if_pos hfid] at hwaiting hactive
      rw [hfid] at hsnapshot
      exact .missed hsnapshot (congrArg (s.coldStarts fid + ·) hwaiting) hactive rfl
    . rw [if_neg hfid] at hwaiting hactive
      exact .same (congrArg _ hwaiting) hactive rfl
  | warmStarted c k a umiId managed idle ha hstage =>
    have hwaiting := tally_awaitsColdStart fid ha (.blocked .warm umiId)
    have hactive := tally_inColdStart fid ha (.blocked .warm umiId)
    have hopened := count_opened fid s.opened { path := .warm, fid := a.fid } .cold
    simp only [hstage, Stage.trying.injEq, reduceCtorEq, and_false, ↓reduceIte, Nat.add_zero] at hwaiting
    simp only [hstage, Stage.IsCold, and_false, ↓reduceIte, Nat.add_zero] at hactive
    simp only [reduceCtorEq, false_and, ↓reduceIte, Nat.add_zero] at hopened
    exact .same (congrArg₂ (· + ·) hopened hwaiting) hactive rfl
  | coldStarted c k a umiId managed idle ha hstage =>
    have hwaiting := tally_awaitsColdStart fid ha (.blocked .cold umiId)
    have hactive := tally_inColdStart fid ha (.blocked .cold umiId)
    have hopened := count_opened fid s.opened { path := .cold, fid := a.fid } .cold
    simp only [hstage, reduceCtorEq, and_false, and_true, ↓reduceIte, Nat.add_zero] at hwaiting
    simp only [hstage, Stage.IsCold, and_true, Nat.add_right_cancel_iff] at hactive
    simp only [true_and] at hopened
    refine .same ?_ hactive rfl
    unfold State.committed State.coldStarts
    dsimp only [State.coldOpened, State.openSession, State.setStage, State.setIdle]
    omega
  | captured => exact .same rfl rfl rfl
  | closed c k j managed a path session idle ha hstage hsession =>
    have hcaptured : session.umiId ∉ s.checkpoints.map Checkpoint.umiId := by
      simpa only [CapturesFirst, hsession] using hfirst
    have hwaiting := tally_awaitsColdStart fid ha .finished
    have hactive := tally_inColdStart fid ha .finished
    simp only [hstage, reduceCtorEq, and_false, ↓reduceIte, Nat.add_zero] at hwaiting
    by_cases hcold : a.fid = fid ∧ path = .cold
    . rcases hcold with ⟨hfid, rfl⟩
      exact .coldClosed c a session.umiId (Pool.mem_of_getElem? ha) hfid hstage hcaptured
        (congrArg _ hwaiting) rfl
    . have hpath : ¬ (a.fid = fid ∧ a.stage.IsCold) := by
        rw [hstage]
        rintro ⟨hfid, hblocked⟩
        cases path with
        | hot | warm => exact hblocked
        | cold => exact hcold ⟨hfid, rfl⟩
      rw [if_neg hpath] at hactive
      simp only [Stage.IsCold, and_false, ↓reduceIte, Nat.add_zero] at hactive
      exact .same (congrArg _ hwaiting) hactive rfl
  | aborted c k j a path session idle ha hstage =>
    have hwaiting := tally_awaitsColdStart fid ha (.next path)
    have hactive := tally_inColdStart fid ha (.next path)
    have haborts := count_opened fid s.aborted { path := path, fid := a.fid } .warm
    simp only [hstage, reduceCtorEq, and_false, ↓reduceIte, Nat.add_zero] at hwaiting
    rw [hstage] at hactive
    cases path with
    | hot =>
      simp only [Stage.next, Stage.trying.injEq, reduceCtorEq, and_false, ↓reduceIte, Nat.add_zero]
        at hwaiting
      simp only [Stage.next, Stage.IsCold, and_false, ↓reduceIte, Nat.add_zero] at hactive
      simp only [reduceCtorEq, false_and, ↓reduceIte, Nat.add_zero] at haborts
      exact .same (congrArg _ hwaiting) hactive haborts
    | warm =>
      simp only [Stage.next, and_true] at hwaiting
      simp only [Stage.next, Stage.IsCold, and_false, and_true, ↓reduceIte, Nat.add_zero] at hactive
      simp only [true_and] at haborts
      by_cases hfid : a.fid = fid
      . rw [if_pos hfid] at hwaiting hactive haborts
        exact .warmAborted (congrArg (s.coldStarts fid + ·) hwaiting) hactive haborts
      . rw [if_neg hfid] at hwaiting hactive haborts
        exact .same (congrArg _ hwaiting) hactive haborts
    | cold =>
      simp only [Stage.next, reduceCtorEq, and_false, ↓reduceIte, Nat.add_zero] at hwaiting
      simp only [Stage.next, Stage.IsCold, and_true, Nat.add_right_cancel_iff] at hactive
      simp only [reduceCtorEq, false_and, ↓reduceIte, Nat.add_zero] at haborts
      exact .same (congrArg _ hwaiting) hactive haborts
  | signalHalt => exact .same rfl rfl rfl
  | leave c k a node ha hstage =>
    have hwaiting := Tally.tally_take (f := awaitsColdStart fid) ha
    have hactive := Tally.tally_take (f := inColdStart fid) ha
    simp only [awaitsColdStart, hstage, reduceCtorEq, and_false, ↓reduceIte, Nat.add_zero] at hwaiting
    simp only [inColdStart, hstage, Stage.IsCold, and_false, ↓reduceIte, Nat.add_zero] at hactive
    exact .same (congrArg _ hwaiting) hactive rfl

end counting

section invariant

variable {c : Fin n} {k : Nat} {a b : Active} {e : Event n}

theorem find?_of_happens (h : Happens build limit s e t)
    (hnone : t.node.root.snapmap.find? fid = none) :
    s.node.root.snapmap.find? fid = none := by
  cases h with
  | addWork _ _ _ hnode => rwa [← snapmap_of_step hnode]
  | poke _ _ hnode => rwa [← snapmap_of_step hnode]
  | captured _ _ _ _ _ _ hroot => exact find?_of_setSnapshot hroot hnone
  | leave _ _ _ _ _ _ hnode => rwa [← snapmap_of_step hnode]
  | _ => exact hnone

theorem cacheIsFull_of_happens (h : Happens build limit s e t)
    (hroom : t.node.root.cacheIsFull = false) :
    s.node.root.cacheIsFull = false := by
  cases h with
  | addWork _ _ _ hnode => rwa [InvokerRoot.cacheIsFull, ← snapmap_of_step hnode]
  | poke _ _ hnode => rwa [InvokerRoot.cacheIsFull, ← snapmap_of_step hnode]
  | captured _ _ _ _ _ _ hroot => exact cacheIsFull_of_setSnapshot hroot hroom
  | leave _ _ _ _ _ _ hnode => rwa [InvokerRoot.cacheIsFull, ← snapmap_of_step hnode]
  | _ => exact hroom

theorem mem_setStage {d : Fin n}
    (h : b ∈ Function.update s.active c ((s.active c).set k a) d) :
    b ∈ s.active d ∨ b = a := by
  by_cases hd : d = c
  . subst hd
    rw [Function.update_self] at h
    exact List.mem_or_eq_of_mem_set h
  . rw [Function.update_of_ne hd] at h
    exact .inl h

-- An invocation that waits for a cold start now was there before, or its checkpoint is new.
theorem mem_active_of_happens {umiId : UmiId} (hroom : s.node.root.cacheIsFull = false)
    (h : Happens build limit s e t) (hb : b ∈ t.active c) (hstage : b.stage = .blocked .cold umiId) :
    b ∈ s.active c ∨ { fid := b.fid, umiId := umiId } ∈ t.checkpoints := by
  have hother {d : Fin n} {k : Nat} {a : Active} {stage : Stage}
      (hmem : b ∈ Function.update s.active d ((s.active d).set k { a with stage := stage }) c)
      (hne : stage ≠ .blocked .cold umiId) :
      b ∈ s.active c := by
    rcases mem_setStage hmem with hmem | hmem
    . exact hmem
    . rw [hmem] at hstage
      exact absurd hstage hne
  cases h with
  | addWork => exact .inl hb
  | poke d node hnode =>
    left
    by_cases hc : c = d
    . subst hc
      simp only [State.poked, Function.update_self, List.mem_append] at hb
      rcases hb with hb | hb
      . exact hb
      . rw [entered, List.mem_map] at hb
        rcases hb with ⟨i, _, rfl⟩
        cases hstage
    . simpa only [State.poked, Function.update_of_ne hc] using hb
  | hotMissed => exact .inl (hother hb (by simp))
  | hotStarted => exact .inl (hother hb (by simp))
  | warmMissed => exact .inl (hother hb (by simp))
  | warmStarted => exact .inl (hother hb (by simp))
  | coldStarted d k a umiId' managed idle ha =>
    rcases mem_setStage hb with hb | hb
    . exact .inl hb
    . subst hb
      cases hstage
      right
      simp only [State.coldOpened, hroom, Bool.false_eq_true, ↓reduceIte]
      exact List.mem_append_right _ (List.mem_singleton_self _)
  | captured => exact .inl hb
  | closed => exact .inl (hother hb (by simp))
  | aborted d k j a path =>
    exact .inl (hother hb (by cases path <;> simp [Stage.next]))
  | signalHalt => exact .inl hb
  | leave d k =>
    left
    by_cases hc : c = d
    . subst hc
      simp only [State.left, Function.update_self] at hb
      exact List.mem_of_mem_eraseIdx hb
    . simpa only [State.left, Function.update_of_ne hc] using hb

theorem mem_checkpoints_of_happens {checkpoint : Checkpoint}
    (hroom : s.node.root.cacheIsFull = false) (h : Happens build limit s e t)
    (hmem : checkpoint ∈ s.checkpoints)
    (hnone : t.node.root.snapmap.find? checkpoint.fid = none) :
    checkpoint ∈ t.checkpoints := by
  cases h with
  | coldStarted =>
    simp only [State.coldOpened, hroom, Bool.false_eq_true, ↓reduceIte]
    exact List.mem_append_left _ hmem
  | captured k sv checkpoint' root fate hk hroot =>
    have hne : checkpoint ≠ checkpoint' := by
      rintro rfl
      exact find?_setSnapshot_self hroom hroot hnone
    exact (Pool.mem_take_of_ne hk hne).mpr hmem
  | _ => exact hmem

/--
As long as a function has no snapshot, every cold start of it is still under way.
-/
structure Unfinished (fid : UInt64) (s : State n) : Prop where
  committed : s.committed fid = Tally.tally (inColdStart fid) s.active
  pending : ∀ c, ∀ a ∈ s.active c, ∀ umiId, a.fid = fid → a.stage = .blocked .cold umiId →
    { fid := fid, umiId := umiId } ∈ s.checkpoints

theorem Unfinished.new : Unfinished fid (State.new hotLimit reuseLimit n) where
  committed := by
    unfold State.committed
    rw [Tally.tally_eq_zero, Tally.tally_eq_zero]
    . rfl
    . intro c a ha
      cases ha
    . intro c a ha
      cases ha
  pending := fun c a ha => nomatch ha

theorem Unfinished.step (h : Unfinished fid s) (hroom : s.node.root.cacheIsFull = false)
    (hfirst : CapturesFirst s e) (he : Happens build limit s e t)
    (hnone : t.node.root.snapmap.find? fid = none) :
    Unfinished fid t := by
  constructor
  . have hcommitted := h.committed
    have hcold : ColdStep fid s t := coldStep_of_happens hfirst he
    cases hcold with
    | same | missed | warmAborted => omega
    | coldClosed c a umiId ha hfid hstage hcaptured =>
      have hpending := h.pending c a ha umiId hfid hstage
      exact absurd (List.mem_map_of_mem hpending) hcaptured
  . intro c a ha umiId hfid hstage
    rcases mem_active_of_happens hroom he ha hstage with hold | hnew
    . exact mem_checkpoints_of_happens hroom he (h.pending c a hold umiId hfid hstage) hnone
    . rwa [hfid] at hnew

theorem inColdStart_le (fid : UInt64) (a : Active) : inColdStart fid a ≤ 1 := by
  unfold inColdStart
  split <;> omega

theorem committed_le_of_unfinished (hlimit : limit.toNat ≤ 255)
    (h : (machine build limit hotLimit reuseLimit n).Reachable s) (hs : Unfinished fid s) :
    s.committed fid ≤ n * limit.toNat := by
  have hle := Tally.tally_le (inColdStart_le fid) fun c => active_length_le hlimit h c
  rwa [Fintype.card_fin, ← hs.committed] at hle

theorem committed_le (hlimit : limit.toNat ≤ 255)
    (h : ((machine build limit hotLimit reuseLimit n).restrict CapturesFirst).Reachable s)
    (hroom : s.node.root.cacheIsFull = false) :
    (s.node.root.snapmap.find? fid = none → Unfinished fid s)
      ∧ s.committed fid ≤ n * limit.toNat + s.warmAborts fid := by
  refine h.invariant (P := fun s => s.node.root.cacheIsFull = false →
    (s.node.root.snapmap.find? fid = none → Unfinished fid s)
      ∧ s.committed fid ≤ n * limit.toNat + s.warmAborts fid) ?_ ?_ hroom
  . intro _
    have hnew : Unfinished fid (State.new hotLimit reuseLimit n) := Unfinished.new
    have hinit := Machine.reachable_init (machine build limit hotLimit reuseLimit n)
    have hle := committed_le_of_unfinished hlimit hinit hnew
    exact ⟨fun _ => hnew, Nat.le_trans hle (Nat.le_add_right _ _)⟩
  . intro s e t hs hinv hstep hroom
    have ht := (hs.step hstep).of_restrict
    rw [Machine.restrict_step] at hstep
    rcases hstep with ⟨hfirst, hstep⟩
    have he := happens_of_step hstep
    have hbefore := cacheIsFull_of_happens he hroom
    rcases hinv hbefore with ⟨hunfinished, hbound⟩
    have hafter : t.node.root.snapmap.find? fid = none → Unfinished fid t := fun hnone =>
      (hunfinished (find?_of_happens he hnone)).step hbefore hfirst he hnone
    refine ⟨hafter, ?_⟩
    have hcold : ColdStep fid s t := coldStep_of_happens hfirst he
    by_cases hnone : t.node.root.snapmap.find? fid = none
    . have hle := committed_le_of_unfinished hlimit ht (hafter hnone)
      omega
    . cases hcold with
      | same => omega
      | missed huncached => exact absurd huncached hnone
      | warmAborted => omega
      | coldClosed => omega

/--
As long as the cache has room, and with a concurrency limit that fits its counter, a function is started
cold at most once for every invocation that the node can have in flight, and once more for every warm start
of it that was aborted.
-/
theorem coldStarts_le (hlimit : limit.toNat ≤ 255)
    (h : ((machine build limit hotLimit reuseLimit n).restrict CapturesFirst).Reachable s)
    (hroom : s.node.root.cacheIsFull = false) (fid : UInt64) :
    s.opened.count { path := .cold, fid := fid }
      ≤ n * limit.toNat + s.aborted.count { path := .warm, fid := fid } := by
  have hle : s.committed fid ≤ n * limit.toNat + s.warmAborts fid := (committed_le hlimit h hroom).2
  unfold State.committed State.coldStarts State.warmAborts at hle
  omega

end invariant

-- Both invocations of the function start cold, one after the other finds no snapshot, and then the third
-- one is started warm and aborted.
def herd (mine c : Fin 2) : List (Event 2) :=
  [
    .addWork mine (exampleInvocation 1),
    .addWork mine (exampleInvocation 2),
    .poke c,
    .poke c,
    .attempt c 0 0 fun _ => true,
    .attempt c 1 0 fun _ => true,
    .attempt c 0 0 fun _ => true,
    .attempt c 1 0 fun _ => true,
    .attempt c 0 4 fun _ => true,
    .attempt c 1 5 fun _ => true,
    .captured 0 9,
    .closed c 0 0 fun _ => true,
    .leave c 0,
    .addWork mine (exampleInvocation 3),
    .poke c,
    .attempt c 1 0 fun _ => true,
    .attempt c 1 6 fun _ => true,
    .aborted c 1 1,
    .attempt c 1 7 fun _ => true
  ]

theorem herd_run : (((machine .debug 2 0 0 2).restrict CapturesFirst).run (herd 0 1)).isSome := by
  decide

theorem coldStarts_le_herd :
    ∃ s, ((machine .debug 2 0 0 2).restrict CapturesFirst).run (herd 0 1) = some s
      ∧ s.opened.count { path := .cold, fid := 7 } = 3
      ∧ s.opened.count { path := .cold, fid := 7 }
        ≤ 2 * 2 + s.aborted.count { path := .warm, fid := 7 } := by
  have hrun := (Option.some_get herd_run).symm
  exact ⟨_, hrun, by decide, coldStarts_le (by decide) ⟨_, hrun⟩ (by decide) 7⟩

end InvokerNode
end Seuss
