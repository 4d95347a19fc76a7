import Seuss.Data.Machine

/-!
This module contains refinements of guarded state machines. A step of the concrete machine is a step
of the abstract machine or leaves its state as it is, and what an event of the one means to the other
may depend on the state. A run is traced by what its events mean, which gives what is known of the
abstract runs for the concrete ones.
-/

namespace Machine

variable {σ : Type u} {ε : Type v} {τ : Type w} {δ : Type x} {β : Type y}

structure Refinement (m : Machine σ ε) (a : Machine τ δ) where
  view : σ → τ
  -- what holds of every state that is reached
  Inv : σ → Prop
  Silent : σ → ε → Prop
  Means : σ → ε → δ → Prop
  view_init : view m.init = a.init
  inv_init : Inv m.init
  inv_step : ∀ s e t, Inv s → m.step s e = some t → Inv t
  simulates : ∀ s e t, Inv s → m.step s e = some t →
    (Silent s e ∧ view t = view s)
      ∨ ∃ d, Means s e d ∧ a.step (view s) d = some (view t)

theorem outputs_restrict {m : Machine σ ε} {P : σ → ε → Prop} [∀ s e, Decidable (P s e)]
    {f : σ → ε → List β} {s t : σ} {es : List ε} (h : (m.restrict P).runFrom s es = some t) :
    (m.restrict P).outputs f s es = m.outputs f s es := by
  induction es generalizing s with
  | nil => rfl
  | cons e es ih =>
    rw [runFrom_cons] at h
    rcases h with ⟨u, hu, ht⟩
    simp only [outputs, hu, (restrict_step.mp hu).2]
    rw [ih ht]

namespace Refinement

variable {m : Machine σ ε} {a : Machine τ δ}

/--
The run `es` ends in `s`, and `ds` is what its events mean.
-/
inductive Trace (R : Refinement m a) : List ε → σ → List δ → Prop where
  | nil : Trace R [] m.init []
  | silent {es : List ε} {s : σ} {ds : List δ} (e : ε) (t : σ) (h : Trace R es s ds)
      (hstep : m.step s e = some t) (hsilent : R.Silent s e) (hview : R.view t = R.view s) :
      Trace R (es ++ [e]) t ds
  | step {es : List ε} {s : σ} {ds : List δ} (e : ε) (t : σ) (d : δ) (h : Trace R es s ds)
      (hstep : m.step s e = some t) (hmeans : R.Means s e d)
      (hview : a.step (R.view s) d = some (R.view t)) :
      Trace R (es ++ [e]) t (ds ++ [d])

variable {R : Refinement m a} {es : List ε} {s : σ} {ds : List δ}

theorem Trace.run (h : R.Trace es s ds) : m.run es = some s := by
  induction h with
  | nil => rfl
  | silent e t h hstep hsilent hview ih => exact m.run_concat.mpr ⟨_, ih, hstep⟩
  | step e t d h hstep hmeans hview ih => exact m.run_concat.mpr ⟨_, ih, hstep⟩

theorem Trace.inv (h : R.Trace es s ds) : R.Inv s := by
  induction h with
  | nil => exact R.inv_init
  | silent e t h hstep hsilent hview ih => exact R.inv_step _ e t ih hstep
  | step e t d h hstep hmeans hview ih => exact R.inv_step _ e t ih hstep

theorem Trace.view_run (h : R.Trace es s ds) : a.run ds = some (R.view s) := by
  induction h with
  | nil =>
    rw [R.view_init]
    rfl
  | silent e t h hstep hsilent hview ih =>
    rw [hview]
    exact ih
  | step e t d h hstep hmeans hview ih => exact a.run_concat.mpr ⟨_, ih, hview⟩

theorem exists_trace (R : Refinement m a) (h : m.run es = some s) : ∃ ds, R.Trace es s ds := by
  refine m.run_induction (P := fun es s => ∃ ds, R.Trace es s ds) ⟨[], .nil⟩ ?_ h
  rintro es s e t _ ⟨ds, htrace⟩ hstep
  rcases R.simulates s e t htrace.inv hstep with ⟨hsilent, hview⟩ | ⟨d, hmeans, hview⟩
  . exact ⟨ds, htrace.silent e t hstep hsilent hview⟩
  . exact ⟨ds ++ [d], htrace.step e t d hstep hmeans hview⟩

/--
An event of the trace is what an event of the run means, in the state that both are taken in.
-/
theorem Trace.occurs (h : R.Trace es s ds) {before : List δ} {d : δ} (hd : before ++ [d] <+: ds) :
    ∃ es₀ e s₀, es₀ ++ [e] <+: es
      ∧ m.run es₀ = some s₀
      ∧ a.run before = some (R.view s₀)
      ∧ R.Means s₀ e d := by
  induction h with
  | nil => simp at hd
  | silent e t h hstep hsilent hview ih =>
    rcases ih hd with ⟨es₀, e₀, s₀, hes, hrest⟩
    exact ⟨es₀, e₀, s₀, hes.trans (List.prefix_append _ _), hrest⟩
  | step e t d' h hstep hmeans hview ih =>
    rcases List.prefix_concat_iff.mp hd with hwhole | hearlier
    . rcases List.append_singleton_inj.mp hwhole with ⟨rfl, rfl⟩
      exact ⟨_, e, _, List.prefix_refl _, h.run, h.view_run, hmeans⟩
    . rcases ih hearlier with ⟨es₀, e₀, s₀, hes, hrest⟩
      exact ⟨es₀, e₀, s₀, hes.trans (List.prefix_append _ _), hrest⟩

/--
If each event gives off what it means does, and nothing where it is silent, a run gives off what its
trace does.
-/
theorem Trace.outputs {f : σ → ε → List β} {g : τ → δ → List β} (h : R.Trace es s ds)
    (hsilent : ∀ s e, R.Silent s e → f s e = [])
    (hmeans : ∀ s e d, R.Means s e d → g (R.view s) d = f s e) :
    a.outputs g a.init ds = m.outputs f m.init es := by
  induction h with
  | nil => rfl
  | silent e t h hstep hquiet hview ih =>
    rw [outputs_concat h.run, hsilent _ _ hquiet, List.append_nil]
    exact ih
  | step e t d h hstep hmatch hview ih =>
    rw [outputs_concat h.run, outputs_concat h.view_run, hmeans _ _ _ hmatch, ih]

section restrict

variable {P : σ → ε → Prop} {Q : τ → δ → Prop} [∀ s e, Decidable (P s e)] [∀ s d, Decidable (Q s d)]

theorem Trace.outputs_of_restrict {R : Refinement (m.restrict P) (a.restrict Q)} {f : σ → ε → List β}
    {g : τ → δ → List β} (h : R.Trace es s ds) (hsilent : ∀ s e, R.Silent s e → f s e = [])
    (hmeans : ∀ s e d, R.Means s e d → g (R.view s) d = f s e) :
    a.outputs g a.init ds = m.outputs f m.init es := by
  have houtputs := h.outputs hsilent hmeans
  rwa [outputs_restrict h.run, outputs_restrict h.view_run] at houtputs

end restrict

end Refinement
end Machine
