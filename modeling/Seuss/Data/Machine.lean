import Mathlib.Data.List.Induction

/-!
This module contains guarded state machines. `step s e` is the state after the event `e` and `none`
where `e` cannot happen in `s`, so the same definition replays a concrete run and carries the
induction over all runs.
-/

structure Machine (σ : Type u) (ε : Type v) where
  init : σ
  step : σ → ε → Option σ

namespace Machine

variable {σ : Type u} {ε : Type v} {τ : Type w} {δ : Type x}

def runFrom (m : Machine σ ε) (s : σ) (es : List ε) : Option σ :=
  es.foldlM m.step s

def run (m : Machine σ ε) (es : List ε) : Option σ :=
  m.runFrom m.init es

def Reachable (m : Machine σ ε) (s : σ) : Prop :=
  ∃ es, m.run es = some s

def restrict (m : Machine σ ε) (P : σ → ε → Prop) [∀ s e, Decidable (P s e)] : Machine σ ε where
  init := m.init
  step s e := if P s e then m.step s e else none

theorem toOption_eq_some {r : Except φ σ} {s : σ} : r.toOption = some s ↔ r = .ok s := by
  cases r <;> simp [Except.toOption]

theorem bind_toOption_eq_some {o : Option (Except φ σ)} {s : σ} :
    o.bind Except.toOption = some s ↔ o = some (.ok s) := by
  rw [Option.bind_eq_some_iff]
  constructor
  . rintro ⟨r, hr, hok⟩
    rw [hr, toOption_eq_some.mp hok]
  . intro h
    exact ⟨_, h, rfl⟩

@[simp]
theorem runFrom_nil (m : Machine σ ε) (s : σ) : m.runFrom s [] = some s := by
  rfl

theorem runFrom_cons (m : Machine σ ε) {s t : σ} {e : ε} {es : List ε} :
    m.runFrom s (e :: es) = some t ↔ ∃ u, m.step s e = some u ∧ m.runFrom u es = some t := by
  simp [runFrom, List.foldlM_cons, Option.bind_eq_some_iff]

theorem runFrom_append (m : Machine σ ε) {s t : σ} {es fs : List ε} :
    m.runFrom s (es ++ fs) = some t ↔ ∃ u, m.runFrom s es = some u ∧ m.runFrom u fs = some t := by
  simp [runFrom, List.foldlM_append, Option.bind_eq_some_iff]

theorem runFrom_singleton (m : Machine σ ε) {s t : σ} {e : ε} :
    m.runFrom s [e] = some t ↔ m.step s e = some t := by
  simp [runFrom_cons]

theorem run_concat (m : Machine σ ε) {t : σ} {es : List ε} {e : ε} :
    m.run (es ++ [e]) = some t ↔ ∃ u, m.run es = some u ∧ m.step u e = some t := by
  simp only [run, runFrom_append, runFrom_singleton]

/--
What holds of the empty run and is kept by every further event holds of every run. `P` sees the
events so far, so it can relate the state to its history.
-/
theorem run_induction (m : Machine σ ε) {P : List ε → σ → Prop} (hinit : P [] m.init)
    (hstep : ∀ es s e t, m.run es = some s → P es s → m.step s e = some t → P (es ++ [e]) t)
    {es : List ε} {s : σ} (h : m.run es = some s) :
    P es s := by
  induction es using List.reverseRecOn generalizing s with
  | nil =>
    simp only [run, runFrom_nil, Option.some.injEq] at h
    rw [← h]
    exact hinit
  | append_singleton es e ih =>
    rw [run_concat] at h
    rcases h with ⟨u, hu, he⟩
    exact hstep es u e s hu (ih hu) he

theorem reachable_init (m : Machine σ ε) : m.Reachable m.init :=
  ⟨[], rfl⟩

theorem Reachable.step {m : Machine σ ε} {s t : σ} {e : ε} (h : m.Reachable s)
    (he : m.step s e = some t) :
    m.Reachable t := by
  rcases h with ⟨es, hes⟩
  exact ⟨es ++ [e], m.run_concat.mpr ⟨s, hes, he⟩⟩

theorem Reachable.runFrom {m : Machine σ ε} {s t : σ} {es : List ε} (h : m.Reachable s)
    (hes : m.runFrom s es = some t) :
    m.Reachable t := by
  rcases h with ⟨fs, hfs⟩
  exact ⟨fs ++ es, m.runFrom_append.mpr ⟨s, hfs, hes⟩⟩

theorem Reachable.invariant {m : Machine σ ε} {P : σ → Prop} (hinit : P m.init)
    (hstep : ∀ s e t, m.Reachable s → P s → m.step s e = some t → P t) {s : σ}
    (h : m.Reachable s) :
    P s := by
  rcases h with ⟨es, hes⟩
  refine m.run_induction (P := fun _ s => P s) hinit ?_ hes
  intro es s e t hs hP he
  exact hstep s e t ⟨es, hs⟩ hP he

/--
Where a step keeps `P` just if it meets `C`, `P` holds in every state of a run just if all the steps of
the run meet `C`.
-/
theorem forall_state_iff (m : Machine σ ε) {P : σ → Prop} {C : σ → ε → Prop} (hinit : P m.init)
    (hstep : ∀ s e t, m.Reachable s → P s → m.step s e = some t → (P t ↔ C s e))
    {es : List ε} {s : σ} (h : m.run es = some s) :
    (∀ before t, before <+: es → m.run before = some t → P t)
      ↔
    ∀ before e t, before ++ [e] <+: es → m.run before = some t → C t e := by
  refine m.run_induction (P := fun es _ =>
    (∀ before t, before <+: es → m.run before = some t → P t)
      ↔
    ∀ before e t, before ++ [e] <+: es → m.run before = some t → C t e) ?_ ?_ h
  . constructor
    . intro _ before e t hbefore
      simp at hbefore
    . intro _ before t hbefore ht
      rw [List.prefix_nil] at hbefore
      subst hbefore
      cases ht
      exact hinit
  . intro es s e t hs ih he
    have ht : m.run (es ++ [e]) = some t := m.run_concat.mpr ⟨s, hs, he⟩
    constructor
    . intro hstates before f u hbefore hu
      have hearlier : ∀ before t, before <+: es → m.run before = some t → P t := by
        intro before t hbefore
        exact hstates before t (hbefore.trans (List.prefix_append _ _))
      rw [List.prefix_concat_iff, List.append_singleton_inj] at hbefore
      rcases hbefore with ⟨rfl, rfl⟩ | hbefore
      . cases hs.symm.trans hu
        rw [← hstep s f t ⟨before, hs⟩ (hearlier before s (List.prefix_refl _) hs) he]
        exact hstates _ t (List.prefix_refl _) ht
      . exact ih.mp hearlier before f u hbefore hu
    . intro hsteps before u hbefore hu
      have hearlier := ih.mpr fun before f u hbefore hu =>
        hsteps before f u (hbefore.trans (List.prefix_append _ _)) hu
      rw [List.prefix_concat_iff] at hbefore
      rcases hbefore with rfl | hbefore
      . cases ht.symm.trans hu
        rw [hstep s e t ⟨es, hs⟩ (hearlier es s (List.prefix_refl _) hs) he]
        exact hsteps es e s (List.prefix_refl _) hs
      . exact hearlier before u hbefore hu

section restrict

variable {m : Machine σ ε} {P : σ → ε → Prop} [∀ s e, Decidable (P s e)]

theorem restrict_step {s t : σ} {e : ε} :
    (m.restrict P).step s e = some t ↔ P s e ∧ m.step s e = some t := by
  simp [restrict]

theorem restrict_true (m : Machine σ ε) : (m.restrict fun _ _ => True) = m := by
  simp [restrict]

theorem runFrom_of_restrict {s t : σ} {es : List ε}
    (h : (m.restrict P).runFrom s es = some t) :
    m.runFrom s es = some t := by
  induction es generalizing s with
  | nil => exact h
  | cons e es ih =>
    rw [runFrom_cons] at h ⊢
    rcases h with ⟨u, hu, ht⟩
    exact ⟨u, (restrict_step.mp hu).2, ih ht⟩

theorem restrict_mono {Q : σ → ε → Prop} [∀ s e, Decidable (Q s e)] (hPQ : ∀ s e, P s e → Q s e)
    {s t : σ} {es : List ε} (h : (m.restrict P).runFrom s es = some t) :
    (m.restrict Q).runFrom s es = some t := by
  induction es generalizing s with
  | nil => exact h
  | cons e es ih =>
    rw [runFrom_cons] at h ⊢
    rcases h with ⟨u, hu, ht⟩
    rw [restrict_step] at hu
    exact ⟨u, restrict_step.mpr ⟨hPQ s e hu.1, hu.2⟩, ih ht⟩

theorem Reachable.of_restrict {s : σ} (h : (m.restrict P).Reachable s) : m.Reachable s := by
  rcases h with ⟨es, hes⟩
  exact ⟨es, runFrom_of_restrict hes⟩

end restrict

/--
A forward simulation: if every step of `m` is matched by a step of `a`, then every run of `m` is
matched by the run of `a` on the translated events.
-/
theorem simulation (m : Machine σ ε) (a : Machine τ δ) (f : ε → δ) {R : σ → τ → Prop}
    (hinit : R m.init a.init)
    (hstep : ∀ s e s' t, R s t → m.step s e = some s' →
      ∃ t', a.step t (f e) = some t' ∧ R s' t')
    {es : List ε} {s : σ} (h : m.run es = some s) :
    ∃ t, a.run (es.map f) = some t ∧ R s t := by
  refine m.run_induction (P := fun es s => ∃ t, a.run (es.map f) = some t ∧ R s t)
    ⟨a.init, rfl, hinit⟩ ?_ h
  rintro es s e s' _ ⟨t, ht, hR⟩ he
  rcases hstep s e s' t hR he with ⟨t', ht', hR'⟩
  refine ⟨t', ?_, hR'⟩
  rw [List.map_append, List.map_singleton, run_concat]
  exact ⟨t, ht, ht'⟩

/--
A part of the state that every step either leaves alone or takes to where a step of `a` does is, in a
reachable state of `m`, a reachable state of `a`.
-/
theorem Reachable.project {m : Machine σ ε} {a : Machine τ δ} {s : σ} (h : m.Reachable s) (π : σ → τ)
    (hinit : a.Reachable (π m.init))
    (hstep : ∀ s e t, m.step s e = some t → π t = π s ∨ ∃ d, a.step (π s) d = some (π t)) :
    a.Reachable (π s) := by
  refine Reachable.invariant (P := fun s => a.Reachable (π s)) hinit ?_ h
  intro s e t _ hs he
  rcases hstep s e t he with hsame | ⟨d, hd⟩
  . rw [hsame]
    exact hs
  . exact hs.step hd

section outputs

variable {β : Type y} {m : Machine σ ε} {f : σ → ε → List β}

variable (m) (f) in
/--
What the steps of a run give off, each of them depending on the state that it is taken in.
-/
def outputs (s : σ) (es : List ε) : List β :=
  match es with
  | [] => []
  | e :: es =>
    f s e ++
      match m.step s e with
      | none => []
      | some t => outputs t es

theorem outputs_append {s t : σ} {es : List ε} (h : m.runFrom s es = some t) (fs : List ε) :
    m.outputs f s (es ++ fs) = m.outputs f s es ++ m.outputs f t fs := by
  induction es generalizing s with
  | nil =>
    cases h
    rfl
  | cons e es ih =>
    rw [runFrom_cons] at h
    rcases h with ⟨u, hu, ht⟩
    simp only [List.cons_append, outputs, hu]
    rw [ih ht, List.append_assoc]

theorem outputs_concat {s t : σ} {es : List ε} (h : m.runFrom s es = some t) (e : ε) :
    m.outputs f s (es ++ [e]) = m.outputs f s es ++ f t e := by
  rw [outputs_append h]
  simp only [outputs]
  cases m.step t e <;> simp

theorem outputs_eq_nil {P : σ → ε → Prop} [∀ s e, Decidable (P s e)] (hnil : ∀ s e, P s e → f s e = [])
    {s t : σ} {es : List ε} (h : (m.restrict P).runFrom s es = some t) :
    m.outputs f s es = [] := by
  induction es generalizing s with
  | nil => rfl
  | cons e es ih =>
    rw [runFrom_cons] at h
    rcases h with ⟨u, hu, ht⟩
    rw [restrict_step] at hu
    simp only [outputs, hu.2]
    rw [hnil s e hu.1, ih ht]
    rfl

end outputs

section measure

variable {m : Machine σ ε} {P : σ → Prop} {μ : σ → Nat}

/--
Where every step makes `μ` less, no run is longer than the value that `μ` starts with.
-/
theorem length_le_of_decreasing (hstep : ∀ s e t, P s → m.step s e = some t → P t ∧ μ t < μ s)
    {s t : σ} {es : List ε} (hP : P s) (h : m.runFrom s es = some t) :
    P t ∧ es.length + μ t ≤ μ s := by
  induction es generalizing s with
  | nil =>
    cases h
    exact ⟨hP, by simp⟩
  | cons e es ih =>
    rw [runFrom_cons] at h
    rcases h with ⟨u, hu, ht⟩
    rcases hstep s e u hP hu with ⟨hPu, hlt⟩
    rcases ih hPu ht with ⟨hPt, hle⟩
    refine ⟨hPt, ?_⟩
    rw [List.length_cons]
    omega

/--
Then every run can be continued to one that ends where no step is possible.
-/
theorem exists_maximal_run (hstep : ∀ s e t, P s → m.step s e = some t → P t ∧ μ t < μ s) (s : σ)
    (hP : P s) :
    ∃ es t, m.runFrom s es = some t ∧ ∀ e, m.step t e = none := by
  induction hμ : μ s using Nat.strongRecOn generalizing s with
  | ind k ih =>
    by_cases hend : ∀ e, m.step s e = none
    . exact ⟨[], s, rfl, hend⟩
    . rw [not_forall] at hend
      rcases hend with ⟨e, he⟩
      rcases Option.ne_none_iff_exists'.mp he with ⟨u, hu⟩
      rcases hstep s e u hP hu with ⟨hPu, hlt⟩
      rcases ih (μ u) (hμ ▸ hlt) u hPu rfl with ⟨es, t, ht, hend⟩
      exact ⟨e :: es, t, m.runFrom_cons.mpr ⟨u, hu, ht⟩, hend⟩

end measure

end Machine
