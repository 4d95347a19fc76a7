import Seuss.Data.Refinement
import Seuss.OpenWhisk.Dispatch
import Seuss.System.Completion

/-!
This module contains the loop of `openwhisk::test` on top of the whole system: one round of the benchmark,
which schedules the generated functions while its pool has room for them, and the continuation of a future,
which prints the row of its activation and gives the place in the pool back. The pool is a plain `int` that
both change, so each change is a load and a store. There is no continuation of an earlier round, and the
variables of the round live as long as its own continuations.
-/

namespace Seuss
namespace Benchmark

open Msg OpenWhisk Controller

structure Config where
  system : System.Config
  bench : Bench
  -- what `genRevisionVec` has returned
  revisionVec : List CString
  function : CString
  -- `RAND_MAX`
  randMax : Nat

def defaultFunction : CString :=
  ("function main(args) \x7b var spin=0; var count = 0; if(args.spin) spin=args.spin; "
    ++ "var max = 1<<spin; for (var line=1; line<max; line++) \x7b count++; \x7d "
    ++ "return \x7bdone:true, c:count\x7d; \x7d").toList

def Config.code (cfg : Config) : CString :=
  if cfg.function.isEmpty then defaultFunction else cfg.function

-- an activation that the loop has scheduled, with the `i` that the continuation of its future captures
structure Run where
  re : CString
  i : Nat
  promise : Nat

def Run.label (r : Run) : CString × Nat :=
  (r.re, r.i)

-- a line on the console and the activation it is for
structure Row where
  run : Run
  text : CString

structure State where
  system : System.State
  -- whether `Ready()` has let the prompt go on
  ready : Bool
  concurrencyPool : Int
  -- what `concurrencyPool -= 1` has loaded and not stored yet
  taking : Option Int
  -- the same for `concurrencyPool += 1`, for each continuation that is at it
  giving : List Int
  -- what of the vector the loop has not come to yet
  revisionVec : List CString
  i : Nat
  inFlight : List Run
  rows : List Row

inductive Event where
  | begin
  | take
  | scheduleActivation (rand : Nat) (env : ScheduleEnv)
  -- the continuation of a future; it has `start_time` by reference, so its times are arbitrary
  | complete (k : Nat) (duration startTime endTime : Int)
  | give (j : Nat)
  | system (e : System.Event)

def withoutQuotes (str : CString) : CString :=
  str.filter (· ≠ '\"')

-- CSV format: <id, duration, start time, end time, status, times, result>
def csvRow (i : Nat) (duration startTime endTime : Int) (cm : CompletionMessage) : CString :=
  CString.ofNat i ++ ", ".toList
    ++ CString.ofInt duration ++ ", ".toList
    ++ CString.ofInt startTime ++ ", ".toList
    ++ CString.ofInt endTime ++ ", ".toList
    ++ (if cm.response.statusCode = 0 then "0".toList else "1".toList) ++ ",\"".toList
    ++ withoutQuotes cm.response.annotations
    ++ "\x7bkey:runTime,value:".toList ++ CString.ofInt cm.response.duration.toInt ++ "\x7d".toList
    ++ withoutQuotes cm.response.result ++ "\"\n".toList

variable (cfg : Config)

def State.new : State where
  system := .new
  ready := false
  concurrencyPool := cfg.bench.parallel.toInt
  taking := none
  giving := []
  revisionVec := cfg.revisionVec
  i := 0
  inFlight := []
  rows := []

def activation (rand : Nat) (re : CString) : ActivationMessage :=
  testActivation (CString.ofNat rand) re

def State.begin (s : State) : Option State :=
  if s.ready = false ∧ s.system.hosted.controller.ready = true then
    some { s with ready := true }
  else
    none

-- `while(concurrencyPool < 1)` lets the loop go on, and the pool is loaded. Completions between the two
-- only add to it.
def State.take (s : State) : Option State :=
  if s.ready = false ∨ s.taking.isSome ∨ s.revisionVec = [] ∨ s.concurrencyPool < 1 then
    none
  else
    some { s with taking := some s.concurrencyPool }

def State.scheduleActivation (s : State) (rand : Nat) (env : ScheduleEnv) : Option State :=
  match s.taking, s.revisionVec with
  | some pool, re :: revisionVec =>
    if cfg.randMax < rand then
      none
    else
      let promise := s.system.hosted.clock
      let event := .scheduleActivation env (activation rand re) cfg.code
      ((System.machine cfg.system).step s.system event).map fun system =>
        {
          s with
          system := system
          concurrencyPool := pool - 1
          taking := none
          revisionVec := revisionVec
          i := s.i + 1
          inFlight := { re := re, i := s.i + 1, promise := promise } :: s.inFlight
        }
  | _, _ => none

-- The row is printed, and the pool is loaded.
def State.complete (s : State) (k : Nat) (duration startTime endTime : Int) : Option State :=
  s.inFlight[k]?.bind fun r =>
    (s.system.hosted.fulfilled.find? (·.promise = r.promise)).map fun f =>
      {
        s with
        giving := s.concurrencyPool :: s.giving
        inFlight := s.inFlight.eraseIdx k
        rows := s.rows ++ [{ run := r, text := csvRow r.i duration startTime endTime f.message }]
      }

def State.give (s : State) (j : Nat) : Option State :=
  s.giving[j]?.map fun pool =>
    { s with concurrencyPool := pool + 1, giving := s.giving.eraseIdx j }

def machine : Machine State Event where
  init := .new cfg
  step s e :=
    match e with
    | .begin => s.begin
    | .take => s.take
    | .scheduleActivation rand env => s.scheduleActivation cfg rand env
    | .complete k duration startTime endTime => s.complete k duration startTime endTime
    | .give j => s.give j
    -- activations are only scheduled by the loop
    | .system (.scheduleActivation _ _ _) => none
    | .system e => ((System.machine cfg.system).step s.system e).map fun system =>
      { s with system := system }

-- what an event is to the rest of the system
def Event.toSystem (s : State) (e : Event) : Option System.Event :=
  match e with
  | .scheduleActivation rand env => s.revisionVec.head?.map fun re =>
    .scheduleActivation env (activation rand re) cfg.code
  | .system e => some e
  | _ => none

def Event.schedules (s : State) (e : Event) : List Run :=
  match e with
  | .scheduleActivation _ _ => (s.revisionVec.head?.map fun re =>
    { re := re, i := s.i + 1, promise := s.system.hosted.clock }).toList
  | _ => []

def systemEventsFrom (s : State) (es : List Event) : List System.Event :=
  (machine cfg).outputs (fun s e => (e.toSystem cfg s).toList) s es

def systemEvents (es : List Event) : List System.Event :=
  systemEventsFrom cfg (.new cfg) es

-- all that the loop has scheduled in a run
def scheduled (es : List Event) : List Run :=
  (machine cfg).outputs (fun s e => e.schedules s) (.new cfg) es

def FreshTid (s : State) (e : Event) : Prop :=
  match e.toSystem cfg s with
  | none => True
  | some e => System.FreshTid cfg.system s.system e

instance (s : State) (e : Event) : Decidable (FreshTid cfg s e) :=
  match h : e.toSystem cfg s with
  | none => isTrue (by rw [FreshTid, h]; trivial)
  | some e => decidable_of_iff (System.FreshTid cfg.system s.system e) (by rw [FreshTid, h])

-- No change of the pool begins between the load and the store of another.
def Exclusive (s : State) (e : Event) : Prop :=
  match e with
  | .take | .complete _ _ _ _ => s.taking = none ∧ s.giving = []
  | _ => True

instance (s : State) (e : Event) : Decidable (Exclusive s e) := by
  unfold Exclusive
  split <;> infer_instance

/--
No transaction id is outstanding twice, and no change of the pool comes between the load and the store of
another.
-/
def FreshExclusive (s : State) (e : Event) : Prop :=
  FreshTid cfg s e ∧ Exclusive s e

instance (s : State) (e : Event) : Decidable (FreshExclusive cfg s e) :=
  inferInstanceAs (Decidable (_ ∧ _))

inductive Happens (cfg : Config) (s : State) : Event → State → Prop where
  | begin (hbegin : s.ready = false) (hready : s.system.hosted.controller.ready = true) :
      Happens cfg s .begin { s with ready := true }
  | taken (hready : s.ready = true) (htaking : s.taking = none) (hvec : s.revisionVec ≠ [])
      (hpool : 1 ≤ s.concurrencyPool) :
      Happens cfg s .take { s with taking := some s.concurrencyPool }
  | scheduled {rand : Nat} {env : ScheduleEnv} (pool : Int) (re : CString) (revisionVec : List CString)
      (system : System.State) (htaking : s.taking = some pool)
      (hvec : s.revisionVec = re :: revisionVec) (hrand : rand ≤ cfg.randMax)
      (hstep : (System.machine cfg.system).step s.system
        (.scheduleActivation env (activation rand re) cfg.code) = some system) :
      Happens cfg s (.scheduleActivation rand env) {
        s with
        system := system
        concurrencyPool := pool - 1
        taking := none
        revisionVec := revisionVec
        i := s.i + 1
        inFlight := { re := re, i := s.i + 1, promise := s.system.hosted.clock } :: s.inFlight
      }
  | completed {k : Nat} {duration startTime endTime : Int} (r : Run) (f : Fulfilled)
      (hr : s.inFlight[k]? = some r)
      (hf : s.system.hosted.fulfilled.find? (·.promise = r.promise) = some f) :
      Happens cfg s (.complete k duration startTime endTime) {
        s with
        giving := s.concurrencyPool :: s.giving
        inFlight := s.inFlight.eraseIdx k
        rows := s.rows ++ [{ run := r, text := csvRow r.i duration startTime endTime f.message }]
      }
  | given {j : Nat} (pool : Int) (hgiving : s.giving[j]? = some pool) :
      Happens cfg s (.give j) { s with concurrencyPool := pool + 1, giving := s.giving.eraseIdx j }
  | system {e : System.Event} (system : System.State)
      (hother : ∀ env am code, e ≠ .scheduleActivation env am code)
      (hstep : (System.machine cfg.system).step s.system e = some system) :
      Happens cfg s (.system e) { s with system := system }

section step

variable {cfg} {s t : State} {e : Event}

theorem happens_of_scheduleActivation {rand : Nat} {env : ScheduleEnv}
    (h : s.scheduleActivation cfg rand env = some t) :
    Happens cfg s (.scheduleActivation rand env) t := by
  unfold State.scheduleActivation at h
  split at h
  . next pool re revisionVec htaking hvec =>
    split at h
    . cases h
    . next hrand =>
      rw [Option.map_eq_some_iff] at h
      rcases h with ⟨system, hstep, rfl⟩
      exact .scheduled pool re revisionVec system htaking hvec (Nat.not_lt.mp hrand) hstep
  . cases h

theorem happens_of_take (h : s.take = some t) : Happens cfg s .take t := by
  unfold State.take at h
  split at h
  . cases h
  . next hguard =>
    rw [not_or, not_or, not_or, Bool.not_eq_false, Bool.not_eq_true, Option.isSome_eq_false_iff,
      Option.isNone_iff_eq_none, Int.not_lt] at hguard
    rcases hguard with ⟨hready, htaking, hvec, hpool⟩
    cases h
    exact .taken hready htaking hvec hpool

theorem happens_of_step (h : (machine cfg).step s e = some t) : Happens cfg s e t := by
  cases e with
  | begin =>
    change s.begin = some t at h
    unfold State.begin at h
    split at h
    . next hguard =>
      cases h
      exact .begin hguard.1 hguard.2
    . cases h
  | take => exact happens_of_take h
  | scheduleActivation rand env => exact happens_of_scheduleActivation h
  | complete k duration startTime endTime =>
    change s.complete k duration startTime endTime = some t at h
    simp only [State.complete, Option.bind_eq_some_iff, Option.map_eq_some_iff] at h
    rcases h with ⟨r, hr, f, hf, rfl⟩
    exact .completed r f hr hf
  | give j =>
    change s.give j = some t at h
    rw [State.give, Option.map_eq_some_iff] at h
    rcases h with ⟨pool, hgiving, rfl⟩
    exact .given pool hgiving
  | system e =>
    simp only [machine] at h
    split at h
    . next heq => cases heq
    . next heq => cases heq
    . next heq => cases heq
    . next heq => cases heq
    . next heq => cases heq
    . cases h
    . next e' hother heq =>
      cases heq
      rw [Option.map_eq_some_iff] at h
      rcases h with ⟨system, hstep, rfl⟩
      exact .system system (fun env am code he => hother env am code (by rw [he])) hstep

/--
The system makes the step that the event is to it.
-/
theorem system_of_happens (h : Happens cfg s e t) :
    (e.toSystem cfg s = none ∧ t.system = s.system)
      ∨ ∃ e', e.toSystem cfg s = some e'
        ∧ (System.machine cfg.system).step s.system e' = some t.system := by
  cases h with
  | begin | taken | completed | given => exact .inl ⟨rfl, rfl⟩
  | scheduled pool re revisionVec system htaking hvec hrand hstep =>
    refine .inr ⟨_, ?_, hstep⟩
    rw [Event.toSystem, hvec]
    rfl
  | system system hother hstep => exact .inr ⟨_, rfl, hstep⟩

/--
Whoever is between a load and a store is alone there and has loaded what the pool still is.
-/
structure Loads (s : State) : Prop where
  taking : ∀ pool, s.taking = some pool → pool = s.concurrencyPool ∧ 1 ≤ pool ∧ s.giving = []
  giving : s.giving = [] ∨ s.giving = [s.concurrencyPool]
  vec : s.taking.isSome → s.revisionVec ≠ [] ∧ s.ready = true

theorem Loads.new : Loads (.new cfg) where
  taking := fun _ h => nomatch h
  giving := .inl rfl
  vec := fun h => nomatch h

theorem Loads.given (h : Loads s) {j : Nat} {pool : Int} (hgiving : s.giving[j]? = some pool) :
    pool = s.concurrencyPool ∧ s.giving.eraseIdx j = [] ∧ s.taking = none := by
  have hone : s.giving = [s.concurrencyPool] := by
    apply h.giving.resolve_left
    intro hnil
    rw [hnil] at hgiving
    cases hgiving
  refine ⟨?_, ?_, ?_⟩
  . have hmem := List.mem_of_getElem? hgiving
    rw [hone] at hmem
    exact List.mem_singleton.mp hmem
  . have hlen := Pool.length_take hgiving
    rw [hone, List.length_singleton] at hlen
    rw [hone, List.eq_nil_iff_length_eq_zero]
    omega
  . by_contra hsome
    rcases Option.ne_none_iff_exists'.mp hsome with ⟨pool', hsome⟩
    rw [(h.taking pool' hsome).2.2] at hone
    cases hone

theorem loads_of_free (htaking : s.taking = none)
    (hgiving : s.giving = [] ∨ s.giving = [s.concurrencyPool]) :
    Loads s := by
  refine ⟨?_, hgiving, ?_⟩
  . intro pool hsome
    cases htaking.symm.trans hsome
  . intro hsome
    rw [htaking] at hsome
    cases hsome

theorem Loads.step (h : Loads s) (hexclusive : Exclusive s e) (hs : (machine cfg).step s e = some t) :
    Loads t := by
  cases happens_of_step hs with
  | begin => exact ⟨h.taking, h.giving, fun hsome => ⟨(h.vec hsome).1, rfl⟩⟩
  | taken hready htaking hvec hpool =>
    refine ⟨?_, h.giving, fun _ => ⟨hvec, hready⟩⟩
    intro pool hsome
    cases hsome
    exact ⟨rfl, hpool, hexclusive.2⟩
  | scheduled pool re revisionVec system htaking =>
    exact loads_of_free rfl (.inl (h.taking pool htaking).2.2)
  | completed =>
    rcases hexclusive with ⟨htaking, hgiving⟩
    refine loads_of_free htaking (.inr ?_)
    dsimp only
    rw [hgiving]
  | given pool hgiving =>
    rcases h.given hgiving with ⟨_, hrest, htaking⟩
    exact loads_of_free htaking (.inl hrest)
  | system => exact ⟨h.taking, h.giving, h.vec⟩

theorem loads_of_reachable (h : ((machine cfg).restrict Exclusive).Reachable s) : Loads s := by
  apply h.invariant .new
  intro s e t _ hloads hstep
  rw [Machine.restrict_step] at hstep
  exact hloads.step hstep.1 hstep.2

-- What of the state the loop itself is about, with each change of the pool made at its load.
def State.dispatch (s : State) : Dispatch where
  concurrencyPool := s.concurrencyPool + s.giving.length
  revisionVec := s.revisionVec
  inFlight := s.inFlight.map Run.re

-- What an event is to the loop whose pool is changed at once.
inductive Means : Event → DispatchEvent → Prop where
  | scheduled (rand : Nat) (env : ScheduleEnv) : Means (.scheduleActivation rand env) .scheduleActivation
  | completed (k : Nat) (duration startTime endTime : Int) :
      Means (.complete k duration startTime endTime) (.complete k)

theorem dispatch_of_step (hloads : Loads s) (h : (machine cfg).step s e = some t) :
    t.dispatch = s.dispatch
      ∨ ∃ d, Means e d ∧ (dispatch cfg.bench cfg.revisionVec).step s.dispatch d = some t.dispatch := by
  cases happens_of_step h with
  | begin | taken | system => exact .inl rfl
  | scheduled pool re revisionVec system htaking hvec hrand hstep =>
    refine .inr ⟨_, .scheduled _ _, ?_⟩
    rcases hloads.taking pool htaking with ⟨hsame, hpool, hgiving⟩
    simp only [dispatch, Dispatch.step, State.dispatch, hvec, hgiving, List.length_nil, List.map_cons]
    rw [if_neg (by omega)]
    simp [hsame]
  | @completed k _ _ _ r f hr hf =>
    refine .inr ⟨_, .completed _ _ _ _, ?_⟩
    simp only [dispatch, Dispatch.step, State.dispatch, List.length_map, List.length_cons]
    rw [if_pos (History.lt_length_of_getElem? hr), List.eraseIdx_map]
    simp [add_assoc]
  | given pool hgiving =>
    left
    have hlen := Pool.length_take hgiving
    simp only [State.dispatch, (hloads.given hgiving).1]
    congr 1
    omega

/--
Where the changes of the pool do not overlap, the loop refines the one that makes each at once.
-/
def refinement (cfg : Config) :
    Machine.Refinement ((machine cfg).restrict Exclusive) (dispatch cfg.bench cfg.revisionVec) where
  view := State.dispatch
  Inv := Loads
  Silent _ _ := True
  Means _ := Means
  view_init := by
    simp [State.dispatch, State.new, Machine.restrict, machine, dispatch]
  inv_init := .new
  inv_step := by
    intro s e t hloads hstep
    rw [Machine.restrict_step] at hstep
    exact hloads.step hstep.1 hstep.2
  simulates := by
    intro s e t hloads hstep
    rw [Machine.restrict_step] at hstep
    rcases dispatch_of_step hloads hstep.2 with hsame | hmeans
    . exact .inl ⟨trivial, hsame⟩
    . exact .inr hmeans

theorem dispatch_of_reachable (h : ((machine cfg).restrict Exclusive).Reachable s) :
    (dispatch cfg.bench cfg.revisionVec).Reachable s.dispatch := by
  rcases h with ⟨es, hes⟩
  rcases (refinement cfg).exists_trace hes with ⟨ds, htrace⟩
  exact ⟨ds, htrace.view_run⟩

theorem pool_of_reachable (h : ((machine cfg).restrict Exclusive).Reachable s) :
    s.concurrencyPool + s.giving.length + s.inFlight.length = cfg.bench.parallel.toInt
      ∧ s.inFlight.length ≤ cfg.bench.parallel.toInt.toNat := by
  have hpool := (Dispatch.inv_of_reachable (dispatch_of_reachable h)).pool
  have hbound := inFlight_le (dispatch_of_reachable h)
  simp only [State.dispatch, List.length_map, ne_eq, List.map_eq_nil_iff] at hpool hbound
  refine ⟨hpool, ?_⟩
  cases hflight : s.inFlight with
  | nil => exact Nat.zero_le _
  | cons r inFlight =>
    rw [← hflight]
    have hle := hbound (by rw [hflight]; exact List.cons_ne_nil _ _)
    omega

end step

section run

variable {cfg} {es : List Event} {s t : State} {e : Event}

theorem systemEvents_concat (h : (machine cfg).run es = some s) (e : Event) :
    systemEvents cfg (es ++ [e]) = systemEvents cfg es ++ (e.toSystem cfg s).toList := by
  apply Machine.outputs_concat h

theorem systemEvents_append (h : (machine cfg).run es = some s) (es' : List Event) :
    systemEvents cfg (es ++ es') = systemEvents cfg es ++ systemEventsFrom cfg s es' := by
  apply Machine.outputs_append h

theorem scheduled_concat (h : (machine cfg).run es = some s) (e : Event) :
    scheduled cfg (es ++ [e]) = scheduled cfg es ++ e.schedules s := by
  apply Machine.outputs_concat h

/--
The system below the loop runs as it does alone, under whatever holds of the events that the loop lets through.
-/
theorem system_runFrom {P : State → Event → Prop} {Q : System.State → System.Event → Prop}
    [∀ s e, Decidable (P s e)] [∀ s e, Decidable (Q s e)]
    (hPQ : ∀ s e e', P s e → e.toSystem cfg s = some e' → Q s.system e')
    (h : ((machine cfg).restrict P).runFrom s es = some t) :
    ((System.machine cfg.system).restrict Q).runFrom s.system (systemEventsFrom cfg s es)
      = some t.system := by
  induction es generalizing s with
  | nil =>
    cases h
    rfl
  | cons e es ih =>
    rw [Machine.runFrom_cons] at h
    rcases h with ⟨u, hu, ht⟩
    rw [Machine.restrict_step] at hu
    have hrest := ih ht
    simp only [systemEventsFrom, Machine.outputs, hu.2] at hrest ⊢
    rcases system_of_happens (happens_of_step hu.2) with ⟨hnone, hsame⟩ | ⟨e', he', hstep⟩
    . rw [hnone, ← hsame]
      exact hrest
    . rw [he', Option.toList_some, List.singleton_append, Machine.runFrom_cons]
      exact ⟨u.system, Machine.restrict_step.mpr ⟨hPQ s e e' hu.1 he', hstep⟩, hrest⟩

theorem freshTid_of_run (h : ((machine cfg).restrict (FreshExclusive cfg)).run es = some s) :
    ((machine cfg).restrict (FreshTid cfg)).run es = some s :=
  Machine.restrict_mono (fun _ _ he => he.1) h

theorem exclusive_of_run (h : ((machine cfg).restrict (FreshExclusive cfg)).run es = some s) :
    ((machine cfg).restrict Exclusive).run es = some s :=
  Machine.restrict_mono (fun _ _ he => he.2) h

theorem system_run (h : ((machine cfg).restrict (FreshTid cfg)).run es = some s) :
    ((System.machine cfg.system).restrict (System.FreshTid cfg.system)).run (systemEvents cfg es)
      = some s.system := by
  apply system_runFrom (P := FreshTid cfg) _ h
  intro s e e' hfresh he'
  rwa [FreshTid, he'] at hfresh

end run

-- The future `r.promise` was returned for the activation of `r.re`, whose invocation `i` was sent.
def ScheduledFor (es : List Event) (r : Run) (am : ActivationMessage) (i : Invocation) : Prop :=
  (∃ rand, am = activation rand r.re)
    ∧ System.SentFor cfg.system (systemEvents cfg es) r.promise am i
    ∧ i.code = cfg.code

/--
The row is about its own activation: the result in it is what a core replied when it had been given the
function that is measured.
-/
def Reports (es : List Event) (row : Row) : Prop :=
  ∃ am i exec res cm, ScheduledFor cfg es row.run am i
    ∧ System.RepliedTo cfg.system (systemEvents cfg es) i exec res
    ∧ Carries cm am { i.info with argsSize := res.length, exec := exec } res
    ∧ ∃ duration startTime endTime, row.text = csvRow row.run.i duration startTime endTime cm

structure Tracks (es : List Event) (s : State) : Prop where
  labels : (scheduled cfg es).map Run.label ++ s.revisionVec.zipIdx (s.i + 1)
    = cfg.revisionVec.zipIdx 1
  promises : (scheduled cfg es).map Run.promise = System.futures cfg.system (systemEvents cfg es)
  runs : (s.rows.map Row.run ++ s.inFlight).Perm (scheduled cfg es)
  inFlight : ∀ r ∈ s.inFlight, ∃ am i, ScheduledFor cfg es r am i
  rows : ∀ row ∈ s.rows, Reports cfg es row

section tracks

variable {cfg} {es : List Event} {s t : State} {e : Event}

theorem defaultFunction_ne_nil : defaultFunction ≠ [] := by
  unfold defaultFunction
  rw [String.toList_append]
  exact List.append_ne_nil_of_right_ne_nil _ (by decide)

theorem code_ne_nil : cfg.code ≠ [] := by
  rw [Config.code]
  cases hfunction : cfg.function with
  | nil => exact defaultFunction_ne_nil
  | cons c function => exact List.cons_ne_nil c function

theorem ScheduledFor.mono {es' : List Event} {r : Run} {am : ActivationMessage} {i : Invocation}
    (h : ScheduledFor cfg es r am i) (hes : systemEvents cfg es <+: systemEvents cfg es') :
    ScheduledFor cfg es' r am i :=
  ⟨h.1, h.2.1.mono hes, h.2.2⟩

theorem Reports.mono {es' : List Event} {row : Row} (h : Reports cfg es row)
    (hes : systemEvents cfg es <+: systemEvents cfg es') : Reports cfg es' row := by
  rcases h with ⟨am, i, exec, res, cm, hscheduled, hreplied, hcarries, htext⟩
  exact ⟨am, i, exec, res, cm, hscheduled.mono hes, hreplied.mono hes, hcarries, htext⟩

theorem Tracks.new : Tracks cfg [] (.new cfg) where
  labels := rfl
  promises := rfl
  runs := .nil
  inFlight := fun _ hr => nomatch hr
  rows := fun _ hrow => nomatch hrow

-- An event that schedules nothing and completes nothing.
theorem Tracks.idle {system : System.State} {ready : Bool} {pool : Int} {taking : Option Int}
    {giving : List Int} (h : Tracks cfg es s)
    (hrun : (machine cfg).run es = some s) (hschedules : e.schedules s = [])
    (hfutures : System.futures cfg.system (systemEvents cfg (es ++ [e]))
      = System.futures cfg.system (systemEvents cfg es)) :
    Tracks cfg (es ++ [e]) {
      s with
      system := system
      ready := ready
      concurrencyPool := pool
      taking := taking
      giving := giving
    } := by
  have hes : systemEvents cfg es <+: systemEvents cfg (es ++ [e]) := by
    rw [systemEvents_concat hrun]
    apply List.prefix_append
  constructor
  . rw [scheduled_concat hrun, hschedules, List.append_nil]
    exact h.labels
  . rw [scheduled_concat hrun, hschedules, List.append_nil, hfutures]
    exact h.promises
  . rw [scheduled_concat hrun, hschedules, List.append_nil]
    exact h.runs
  . intro r hr
    rcases h.inFlight r hr with ⟨am, i, hscheduled⟩
    exact ⟨am, i, hscheduled.mono hes⟩
  . intro row hrow
    exact (h.rows row hrow).mono hes

theorem scheduledFor_of_step {rand : Nat} {env : ScheduleEnv} {re : CString}
    {revisionVec : List CString} (hrun : (machine cfg).run es = some s)
    (hsystem : (System.machine cfg.system).run (systemEvents cfg es) = some s.system)
    (hvec : s.revisionVec = re :: revisionVec) :
    ScheduledFor cfg (es ++ [.scheduleActivation rand env])
      { re := re, i := s.i + 1, promise := s.system.hosted.clock } (activation rand re)
      (System.scheduledInvocation cfg.system.hash env (activation rand re) cfg.code) := by
  refine ⟨⟨rand, rfl⟩, ⟨systemEvents cfg es, env, cfg.code, s.system, ?_, hsystem, rfl, rfl⟩, ?_⟩
  . rw [systemEvents_concat hrun, Event.toSystem, hvec]
    apply List.prefix_refl
  . exact if_neg (by rw [List.isEmpty_iff]; exact code_ne_nil)

theorem Tracks.scheduled {rand : Nat} {env : ScheduleEnv} {re : CString}
    {revisionVec : List CString} {system : System.State} {pool : Int} {taking : Option Int}
    (h : Tracks cfg es s)
    (hrun : (machine cfg).run es = some s)
    (hsystem : (System.machine cfg.system).run (systemEvents cfg es) = some s.system)
    (hvec : s.revisionVec = re :: revisionVec) :
    Tracks cfg (es ++ [.scheduleActivation rand env]) {
      s with
      system := system
      concurrencyPool := pool
      taking := taking
      revisionVec := revisionVec
      i := s.i + 1
      inFlight := { re := re, i := s.i + 1, promise := s.system.hosted.clock } :: s.inFlight
    } := by
  have hschedules : (Event.scheduleActivation rand env).schedules s
      = [{ re := re, i := s.i + 1, promise := s.system.hosted.clock }] := by
    rw [Event.schedules, hvec]
    rfl
  have htoSystem : (Event.scheduleActivation rand env).toSystem cfg s
      = some (.scheduleActivation env (activation rand re) cfg.code) := by
    rw [Event.toSystem, hvec]
    rfl
  have hes : systemEvents cfg es <+: systemEvents cfg (es ++ [.scheduleActivation rand env]) := by
    rw [systemEvents_concat hrun]
    apply List.prefix_append
  constructor
  . have hlabels := h.labels
    rw [hvec, List.zipIdx_cons] at hlabels
    rw [scheduled_concat hrun, hschedules, List.map_append, List.append_assoc, ← hlabels]
    rfl
  . rw [scheduled_concat hrun, hschedules, List.map_append, h.promises, systemEvents_concat hrun,
      htoSystem, Option.toList_some, System.futures_concat hsystem]
    rfl
  . rw [scheduled_concat hrun, hschedules]
    exact List.perm_middle.trans ((h.runs.cons _).trans (List.perm_append_singleton _ _).symm)
  . intro r hr
    rcases List.mem_cons.mp hr with rfl | hr
    . exact ⟨_, _, scheduledFor_of_step hrun hsystem hvec⟩
    . rcases h.inFlight r hr with ⟨am, i, hscheduled⟩
      exact ⟨am, i, hscheduled.mono hes⟩
  . intro row hrow
    exact (h.rows row hrow).mono hes

theorem Tracks.completed {k : Nat} {duration startTime endTime : Int} {r : Run} {text : CString}
    {giving : List Int} (h : Tracks cfg es s) (hrun : (machine cfg).run es = some s)
    (hr : s.inFlight[k]? = some r) (hreports : Reports cfg es { run := r, text := text }) :
    Tracks cfg (es ++ [.complete k duration startTime endTime]) {
      s with
      giving := giving
      inFlight := s.inFlight.eraseIdx k
      rows := s.rows ++ [{ run := r, text := text }]
    } := by
  have hsystem : systemEvents cfg (es ++ [.complete k duration startTime endTime])
      = systemEvents cfg es := by
    rw [systemEvents_concat hrun]
    apply List.append_nil
  have hscheduled : Benchmark.scheduled cfg (es ++ [.complete k duration startTime endTime])
      = Benchmark.scheduled cfg es := by
    rw [scheduled_concat hrun]
    apply List.append_nil
  have hes : systemEvents cfg es
      <+: systemEvents cfg (es ++ [.complete k duration startTime endTime]) :=
    hsystem.symm ▸ List.prefix_refl _
  constructor
  . rw [hscheduled]
    exact h.labels
  . rw [hscheduled, hsystem, h.promises]
  . rw [hscheduled, List.map_append, List.map_singleton, List.append_assoc, List.singleton_append]
    exact ((Pool.perm_of_getElem? hr).append_left _).trans h.runs
  . intro r' hr'
    rcases h.inFlight r' (List.mem_of_mem_eraseIdx hr') with ⟨am, i, hscheduled⟩
    exact ⟨am, i, hscheduled.mono hes⟩
  . apply Pool.forall_put _ (hreports.mono hes)
    intro row hrow
    exact (h.rows row hrow).mono hes

theorem Tracks.step (h : Tracks cfg es s)
    (hrun : ((machine cfg).restrict (FreshTid cfg)).run es = some s)
    (hstep : ((machine cfg).restrict (FreshTid cfg)).step s e = some t) :
    Tracks cfg (es ++ [e]) t := by
  rw [Machine.restrict_step] at hstep
  have hes := Machine.runFrom_of_restrict hrun
  have hsystem := Machine.runFrom_of_restrict (system_run hrun)
  cases happens_of_step hstep.2 with
  | begin | taken | given =>
    apply h.idle hes rfl
    rw [systemEvents_concat hes]
    exact congrArg _ (List.append_nil _)
  | scheduled _ _ _ _ _ hvec => exact h.scheduled hes hsystem hvec
  | completed r f hr hf =>
    apply h.completed hes hr
    rcases h.inFlight r (Pool.mem_of_getElem? hr) with ⟨am, i, hscheduled⟩
    have hpromise : f.promise = r.promise := by
      simpa using List.find?_some hf
    have hcompletes := (System.answered_of_run (system_run hrun)).fulfilled f
      (List.mem_of_find?_eq_some hf)
    rcases hcompletes with ⟨am', i', exec, res, hsent, hreplied, hcarries⟩
    rw [hpromise] at hsent
    rcases hscheduled.2.1.unique hsent with ⟨rfl, rfl⟩
    exact ⟨am, i, exec, res, f.message, hscheduled, hreplied, hcarries, _, _, _, rfl⟩
  | @system e' system hother hstep' =>
    apply h.idle hes rfl
    rw [systemEvents_concat hes, Event.toSystem, Option.toList_some, System.futures_concat hsystem]
    cases e' with
    | scheduleActivation env am code => exact absurd rfl (hother env am code)
    | _ => apply List.append_nil

theorem tracks_of_run (h : ((machine cfg).restrict (FreshTid cfg)).run es = some s) :
    Tracks cfg es s := by
  refine Machine.run_induction _ (P := Tracks cfg) .new ?_ h
  intro es s e t hes htracks hstep
  exact htracks.step hes hstep

end tracks

section row

-- The last field stands in quotes, and they are the only ones.
def Quoted (text : CString) : Prop :=
  ∃ head field, text = head ++ '\"' :: field ++ "\"\n".toList ∧ '\"' ∉ head ∧ '\"' ∉ field

theorem quote_not_mem_ofNat (n : Nat) : '\"' ∉ CString.ofNat n := by
  intro h
  cases CString.isDigit_of_mem_ofNat h

theorem quote_not_mem_ofInt (n : Int) : '\"' ∉ CString.ofInt n := by
  cases n with
  | ofNat m => exact quote_not_mem_ofNat m
  | negSucc m =>
    rw [CString.ofInt, List.mem_cons, not_or]
    exact ⟨by decide, quote_not_mem_ofNat _⟩

theorem quote_not_mem_withoutQuotes (str : CString) : '\"' ∉ withoutQuotes str := by
  simp [withoutQuotes]

/--
Whatever is in the result, a reader finds the end of the row.
-/
theorem quoted_csvRow (i : Nat) (duration startTime endTime : Int) (cm : CompletionMessage) :
    Quoted (csvRow i duration startTime endTime cm) := by
  refine ⟨CString.ofNat i ++ ", ".toList ++ CString.ofInt duration ++ ", ".toList
    ++ CString.ofInt startTime ++ ", ".toList ++ CString.ofInt endTime ++ ", ".toList
    ++ (if cm.response.statusCode = 0 then "0".toList else "1".toList) ++ [','],
    withoutQuotes cm.response.annotations ++ "\x7bkey:runTime,value:".toList
    ++ CString.ofInt cm.response.duration.toInt ++ "\x7d".toList
    ++ withoutQuotes cm.response.result, ?_, ?_, ?_⟩
  . simp [csvRow]
  . simp [quote_not_mem_ofNat, quote_not_mem_ofInt]
    split <;> decide
  . simp [quote_not_mem_ofInt, quote_not_mem_withoutQuotes]

theorem Reports.quoted {cfg : Config} {es : List Event} {row : Row} (h : Reports cfg es row) :
    Quoted row.text := by
  rcases h with ⟨_, _, _, _, cm, _, _, _, duration, startTime, endTime, htext⟩
  rw [htext]
  apply quoted_csvRow

end row

section backlog

variable {cfg} {es : List Event} {s t : State} {e : Event}

theorem fulfilled_of_run (h : ((machine cfg).restrict (FreshTid cfg)).run es = some s) :
    ∀ row ∈ s.rows, row.run.promise ∈ s.system.hosted.fulfilled.map Fulfilled.promise := by
  refine Machine.run_induction _ (P := fun _ (s : State) =>
    ∀ row ∈ s.rows, row.run.promise ∈ s.system.hosted.fulfilled.map Fulfilled.promise) ?_ ?_ h
  . intro row hrow
    cases hrow
  . intro es s e t _ hfulfilled hstep
    rw [Machine.restrict_step] at hstep
    cases happens_of_step hstep.2 with
    | begin | taken | given => exact hfulfilled
    | scheduled _ _ _ _ _ _ _ hstep' | system _ _ hstep' =>
      intro row hrow
      have hmono := System.fulfilled_mono (System.machine_step.mp hstep')
      exact (hmono.map Fulfilled.promise).subset (hfulfilled row hrow)
    | completed r f hr hf =>
      have hpromise : f.promise = r.promise := by
        simpa using List.find?_some hf
      apply Pool.forall_put hfulfilled
      rw [← hpromise]
      exact List.mem_map_of_mem (List.mem_of_find?_eq_some hf)

theorem promises_of_run (h : ((machine cfg).restrict (FreshTid cfg)).run es = some s) :
    (s.rows.map (·.run.promise) ++ s.inFlight.map Run.promise).Perm s.system.promises
      ∧ s.system.promises.Nodup := by
  have htracks := tracks_of_run h
  have hpromises := System.promises_of_run (system_run h)
  have hruns := htracks.runs.map Run.promise
  rw [List.map_append, List.map_map, htracks.promises] at hruns
  refine ⟨hruns.trans hpromises.symm, hpromises.nodup_iff.mpr ?_⟩
  exact (System.futures_nodup (Machine.runFrom_of_restrict (system_run h))).1

/--
What the controller still waits for is what the loop waits for: no more than that is on its way in all
of the system, together with what was lost.
-/
theorem backlog_le (h : ((machine cfg).restrict (FreshTid cfg)).run es = some s) :
    s.system.tids.length + (System.lost cfg.system (systemEvents cfg es)).length
      ≤ s.inFlight.length := by
  rcases promises_of_run h with ⟨hpromises, hnodup⟩
  have hkeys := (System.keys_of_run (system_run h)).length_eq
  have hlength := hpromises.length_eq
  have hrows : s.rows.length ≤ s.system.hosted.fulfilled.length := by
    have hrowsNodup := (List.nodup_append.mp (hpromises.nodup_iff.mpr hnodup)).1
    have hsubset : s.rows.map (·.run.promise) ⊆ s.system.hosted.fulfilled.map Fulfilled.promise := by
      intro promise hpromise
      rcases List.mem_map.mp hpromise with ⟨row, hrow, rfl⟩
      exact fulfilled_of_run h row hrow
    simpa using (List.subperm_of_subset hrowsNodup hsubset).length_le
  have hvalues := UnorderedMap.length_values s.system.hosted.controller.recordMap
  simp only [System.State.promises, List.length_append, List.length_map] at hlength hkeys
  have hsize : s.system.hosted.controller.recordMap.keys.length
      = s.system.hosted.controller.recordMap.size := rfl
  omega

/--
Every entry of the vector is printed, in flight or still to come, each one once and under its own number.
Where the changes of the pool do not overlap, there is never more on its way or lost than the operator
asked for. Each row that is printed is the result of its own activation. An invocation that a core has
taken is replied to once at most here.
-/
theorem printsOnce (h : ((machine cfg).restrict (FreshExclusive cfg)).run es = some s) :
    (s.rows.map (·.run.label) ++ s.inFlight.map Run.label ++ s.revisionVec.zipIdx (s.i + 1)).Perm
        (cfg.revisionVec.zipIdx 1)
      ∧ s.concurrencyPool + s.giving.length + s.inFlight.length = cfg.bench.parallel.toInt
      ∧ s.system.tids.length + (System.lost cfg.system (systemEvents cfg es)).length
        ≤ s.inFlight.length
      ∧ s.inFlight.length ≤ cfg.bench.parallel.toInt.toNat
      ∧ ∀ row ∈ s.rows, Reports cfg es row ∧ Quoted row.text := by
  have hfresh := freshTid_of_run h
  have htracks := tracks_of_run hfresh
  have hpool := pool_of_reachable ⟨es, exclusive_of_run h⟩
  refine ⟨?_, hpool.1, backlog_le hfresh, hpool.2, ?_⟩
  . have hruns := htracks.runs.map Run.label
    rw [List.map_append, List.map_map] at hruns
    rw [← htracks.labels]
    exact hruns.append_right _
  . intro row hrow
    exact ⟨htracks.rows row hrow, (htracks.rows row hrow).quoted⟩

end backlog

-- An event that brings the end of the round nearer.
def Productive (s : State) (e : Event) : Prop :=
  match e with
  | .begin => False
  | .take | .scheduleActivation _ _ | .complete _ _ _ _ | .give _ => True
  | .system e => System.Productive s.system e

instance (s : State) (e : Event) : Decidable (Productive s e) :=
  match e with
  | .begin => instDecidableFalse
  | .take | .scheduleActivation _ _ | .complete _ _ _ _ | .give _ => instDecidableTrue
  | .system e => inferInstanceAs (Decidable (System.Productive s.system e))

-- The loop goes on under fresh transaction ids and alone with the pool, and nothing more is lost.
def Rest (s : State) (e : Event) : Prop :=
  Productive s e ∧ FreshExclusive cfg s e

instance (s : State) (e : Event) : Decidable (Rest cfg s e) :=
  inferInstanceAs (Decidable (_ ∧ _))

-- An activation that is scheduled is five events away from the end of its future, and then its row is
-- printed and its place given back.
def State.distance (s : State) : Nat :=
  s.system.distance + 2 * s.inFlight.length + s.giving.length + 9 * s.revisionVec.length
    + (if s.taking.isSome then 0 else 1)

def Lossless (_ : System.State) (e : System.Event) : Prop :=
  match e with
  | .loseRequest _ | .loseReply _ => False
  | _ => True

instance (s : System.State) (e : System.Event) : Decidable (Lossless s e) :=
  match e with
  | .loseRequest _ | .loseReply _ => instDecidableFalse
  | .registerNode _ _ | .scheduleActivation _ _ _ | .sendRequest _ | .receiveRequest _ _ | .getWork _
  | .sendReply _ _ _ | .receiveReply _ _ _ => instDecidableTrue

section progress

variable {cfg} {es es' : List Event} {s t : State} {e : Event}

theorem decreases (hinv : System.Inv s.system)
    (hs : ((machine cfg).restrict (Rest cfg)).step s e = some t) :
    System.Inv t.system ∧ t.distance < s.distance := by
  rw [Machine.restrict_step] at hs
  unfold State.distance
  cases happens_of_step hs.2 with
  | begin => cases hs.1.1
  | taken hready htaking =>
    refine ⟨hinv, ?_⟩
    simp [htaking]
  | scheduled pool re revisionVec system htaking hvec hrand hstep =>
    have hfresh := hs.1.2.1
    rw [FreshTid, Event.toSystem, hvec] at hfresh
    have hdistance := System.distance_of_scheduleActivation (System.machine_step.mp hstep)
    refine ⟨hinv.step hfresh (System.machine_step.mp hstep), ?_⟩
    simp only [hvec, htaking, List.length_cons, Option.isSome_some, Option.isSome_none, if_true,
      Bool.false_eq_true, if_false]
    omega
  | completed r f hr hf =>
    have hlen := Pool.length_take hr
    refine ⟨hinv, ?_⟩
    simp only [List.length_cons]
    omega
  | given pool hgiving =>
    have hlen := Pool.length_take hgiving
    refine ⟨hinv, ?_⟩
    dsimp only
    omega
  | system system hother hstep =>
    have hdecreases := System.decreases hinv (Machine.restrict_step.mpr ⟨hs.1.1, hstep⟩)
    refine ⟨hdecreases.1, ?_⟩
    dsimp only
    omega

theorem lossless_of_rest (e' : System.Event) (he : Rest cfg s e) (he' : e.toSystem cfg s = some e') :
    Lossless s.system e' := by
  cases e with
  | begin | take | complete | give => cases he'
  | scheduleActivation rand env =>
    simp only [Event.toSystem, Option.map_eq_some_iff] at he'
    rcases he' with ⟨re, _, rfl⟩
    trivial
  | system e =>
    cases he'
    have hproductive : System.Productive s.system e' := he.1
    cases e' with
    | loseRequest | loseReply => cases hproductive
    | _ => trivial

theorem lost_of_rest (h : (machine cfg).run es = some s)
    (hsystem : (System.machine cfg.system).run (systemEvents cfg es) = some s.system)
    (hrest : ((machine cfg).restrict (Rest cfg)).runFrom s es' = some t) :
    System.lost cfg.system (systemEvents cfg (es ++ es')) = System.lost cfg.system (systemEvents cfg es) := by
  have hrun : (System.machine cfg.system).runFrom .new (systemEvents cfg es) = some s.system := hsystem
  have hlossless := system_runFrom (Q := Lossless) (fun _ _ => lossless_of_rest) hrest
  rw [systemEvents_append h, System.lost, Machine.outputs_append hrun,
    Machine.outputs_eq_nil (P := Lossless) _ hlossless, List.append_nil]
  . rfl
  . intro s e he
    cases e with
    | loseRequest | loseReply => cases he
    | _ => rfl

theorem ready_of_run (h : (machine cfg).run es = some s) (hready : s.ready = true) :
    s.system.hosted.controller.nids ≠ [] := by
  revert hready
  refine Machine.run_induction _ (P := fun _ (s : State) => s.ready = true →
    s.system.hosted.controller.nids ≠ []) ?_ ?_ h
  . intro hready
    cases hready
  . intro es s e t _ hnids hstep hready
    cases happens_of_step hstep with
    | begin hbegin hfound =>
      intro hnil
      dsimp only at hnil
      rw [Controller.ready, hnil] at hfound
      cases hfound
    | taken | completed | given => exact hnids hready
    | scheduled _ _ _ _ _ _ _ hstep' | system _ _ hstep' =>
      have hmono := System.nids_mono (System.machine_step.mp hstep')
      intro hnil
      dsimp only at hnil
      rw [hnil, List.prefix_nil] at hmono
      exact hnids hready hmono

theorem ready_of_rest (h : ((machine cfg).restrict (Rest cfg)).runFrom s es = some t)
    (hready : s.ready = true) : t.ready = true := by
  induction es generalizing s with
  | nil =>
    cases h
    exact hready
  | cons e es ih =>
    rw [Machine.runFrom_cons] at h
    rcases h with ⟨u, hu, ht⟩
    apply ih ht
    cases happens_of_step (Machine.restrict_step.mp hu).2 with
    | begin => rfl
    | taken | scheduled | completed | given | system => exact hready

theorem not_step_of_end (hend : ∀ e, ((machine cfg).restrict (Rest cfg)).step t e = none)
    (he : Rest cfg t e) : ¬ ∃ u, (machine cfg).step t e = some u := by
  rintro ⟨u, hu⟩
  have hstep := Machine.restrict_step.mpr ⟨he, hu⟩
  rw [hend e] at hstep
  cases hstep

theorem tids_of_end (hinv : System.Inv t.system)
    (hend : ∀ e, ((machine cfg).restrict (Rest cfg)).step t e = none) : t.system.tids = [] := by
  have hsystem (e : System.Event) :
      ((System.machine cfg.system).restrict System.Productive).step t.system e = none := by
    by_contra hstep
    rcases Option.ne_none_iff_exists'.mp hstep with ⟨system, hstep⟩
    rw [Machine.restrict_step] at hstep
    have he : Rest cfg t (.system e) := ⟨hstep.1, System.freshTid_of_productive hstep.1, trivial⟩
    apply not_step_of_end hend he
    cases e with
    | scheduleActivation => cases hstep.1
    | _ =>
      simp only [machine]
      rw [hstep.2]
      exact ⟨_, rfl⟩
  exact System.tids_of_maximal hinv hsystem

theorem giving_of_end (hend : ∀ e, ((machine cfg).restrict (Rest cfg)).step t e = none) :
    t.giving = [] := by
  cases hgiving : t.giving with
  | nil => rfl
  | cons pool giving =>
    exfalso
    apply not_step_of_end (e := .give 0) hend ⟨trivial, trivial, trivial⟩
    simp only [machine, State.give, hgiving, List.getElem?_cons_zero, Option.map_some]
    exact ⟨_, rfl⟩

theorem inFlight_of_end (htaking : t.taking = none)
    (hend : ∀ e, ((machine cfg).restrict (Rest cfg)).step t e = none) :
    ∀ promise ∈ t.inFlight.map Run.promise,
      promise ∉ t.system.hosted.fulfilled.map Fulfilled.promise := by
  intro promise hflight hfulfilled
  rcases List.mem_map.mp hflight with ⟨r, hr, rfl⟩
  rcases List.mem_map.mp hfulfilled with ⟨f, hf, hpromise⟩
  rcases List.getElem?_of_mem hr with ⟨k, hk⟩
  have hfind : (t.system.hosted.fulfilled.find? (·.promise = r.promise)).isSome := by
    rw [List.find?_isSome]
    exact ⟨f, hf, by simpa using hpromise⟩
  rcases Option.isSome_iff_exists.mp hfind with ⟨f', hf'⟩
  have he : Rest cfg t (.complete k 0 0 0) := ⟨trivial, trivial, htaking, giving_of_end hend⟩
  apply not_step_of_end hend he
  simp only [machine, State.complete, hk, hf', Option.bind_some, Option.map_some]
  exact ⟨_, rfl⟩

/--
What is recorded is less than the operator asked for where the pool has room, so there is a name left.
-/
theorem exists_name
    (hnames : ∀ tids : List UInt64, tids.length < cfg.bench.parallel.toInt.toNat →
      ∃ rand ≤ cfg.randMax, cfg.system.hash (CString.ofNat rand) ∉ tids)
    (h : ((machine cfg).restrict (FreshExclusive cfg)).run es = some t) (hpool : 1 ≤ t.concurrencyPool)
    (re : CString) :
    ∃ rand ≤ cfg.randMax, t.system.hosted.controller.recordMap.find?
      (Controller.tid cfg.system.hash (activation rand re)) = none := by
  have hparallel := (pool_of_reachable ⟨es, exclusive_of_run h⟩).1
  have hbacklog := backlog_le (freshTid_of_run h)
  have hkeys := (System.keys_of_run (system_run (freshTid_of_run h))).length_eq
  rw [List.length_append] at hkeys
  rcases hnames t.system.hosted.controller.recordMap.keys (by omega) with ⟨rand, hmax, hrand⟩
  refine ⟨rand, hmax, ?_⟩
  rw [UnorderedMap.find?_eq_none, AList.mem_keys]
  exact hrand

/--
Where nothing is possible any more, the loop is not in the middle of taking a place.
-/
theorem taking_of_end
    (hnames : ∀ tids : List UInt64, tids.length < cfg.bench.parallel.toInt.toNat →
      ∃ rand ≤ cfg.randMax, cfg.system.hash (CString.ofNat rand) ∉ tids)
    (h : ((machine cfg).restrict (FreshExclusive cfg)).run es = some t)
    (hend : ∀ e, ((machine cfg).restrict (Rest cfg)).step t e = none) :
    t.taking = none := by
  cases htaking : t.taking with
  | none => rfl
  | some pool =>
    exfalso
    have hloads := loads_of_reachable ⟨es, exclusive_of_run h⟩
    rcases hloads.taking pool htaking with ⟨hsame, hpool, _⟩
    rcases hloads.vec (by rw [htaking]; rfl) with ⟨hvec, hready⟩
    rcases List.exists_cons_of_ne_nil hvec with ⟨re, revisionVec, hvec⟩
    rcases exists_name hnames h (hsame ▸ hpool) re with ⟨rand, hmax, hfresh⟩
    have hes := Machine.runFrom_of_restrict h
    let env : ScheduleEnv := { getAction := fun _ => [], now := 0, beyond := fun _ => 'x' }
    rcases System.step_scheduleActivation cfg.system (ready_of_run hes hready) hfresh env cfg.code
      with ⟨system, hstep⟩
    have he : Rest cfg t (.scheduleActivation rand env) := by
      refine ⟨trivial, ?_, trivial⟩
      rw [FreshTid, Event.toSystem, hvec]
      exact Option.isNone_iff_eq_none.mpr hfresh
    apply not_step_of_end hend he
    simp only [machine, State.scheduleActivation, htaking, hvec, if_neg (Nat.not_lt.mpr hmax),
      System.machine_step.mpr hstep, Option.map_some]
    exact ⟨_, rfl⟩

/--
Where the loop cannot go on, its pool is empty or the vector is.
-/
theorem pool_of_end (htaking : t.taking = none) (hready : t.ready = true)
    (hend : ∀ e, ((machine cfg).restrict (Rest cfg)).step t e = none) :
    t.revisionVec = [] ∨ t.concurrencyPool < 1 := by
  by_contra hstuck
  have he : Rest cfg t .take := ⟨trivial, trivial, htaking, giving_of_end hend⟩
  apply not_step_of_end hend he
  simp only [machine, State.take, hready, htaking, Option.isSome_none, Bool.true_eq_false,
    Bool.false_eq_true, false_or, if_neg hstuck]
  exact ⟨_, rfl⟩

/--
If nothing more gets lost, the round comes to an end by itself, in whatever order its events come. Then
just as many activations are left without a row as requests and replies were lost, and unless these have
taken up the whole pool, all of the vector has been scheduled. Every invocation that a core has taken can
be replied to here, once, and the changes of the pool do not overlap.
-/
theorem finishes
    (hnames : ∀ tids : List UInt64, tids.length < cfg.bench.parallel.toInt.toNat →
      ∃ rand ≤ cfg.randMax, cfg.system.hash (CString.ofNat rand) ∉ tids)
    (h : ((machine cfg).restrict (FreshExclusive cfg)).run es = some s) (hready : s.ready = true) :
    (∃ es' t, ((machine cfg).restrict (Rest cfg)).runFrom s es' = some t
        ∧ ∀ e, ((machine cfg).restrict (Rest cfg)).step t e = none)
      ∧ ∀ es' t, ((machine cfg).restrict (Rest cfg)).runFrom s es' = some t →
        es'.length + t.distance ≤ s.distance
          ∧ ((∀ e, ((machine cfg).restrict (Rest cfg)).step t e = none) →
            t.inFlight.length = (System.lost cfg.system (systemEvents cfg es)).length
              ∧ ((System.lost cfg.system (systemEvents cfg es)).length
                  < cfg.bench.parallel.toInt.toNat →
                t.revisionVec = []
                  ∧ (System.lost cfg.system (systemEvents cfg es) = [] →
                    (t.rows.map (·.run.label)).Perm (cfg.revisionVec.zipIdx 1)))) := by
  have hfresh := freshTid_of_run h
  have hinv := System.reachable_inv ⟨_, system_run hfresh⟩
  refine ⟨Machine.exists_maximal_run (P := fun s : State => System.Inv s.system)
    (fun _ _ _ => decreases) s hinv, ?_⟩
  intro es' t hrest
  rcases Machine.length_le_of_decreasing (P := fun s : State => System.Inv s.system)
    (fun _ _ _ => decreases) hinv hrest with ⟨hinv', hdistance⟩
  refine ⟨hdistance, ?_⟩
  intro hend
  have hwhole : ((machine cfg).restrict (FreshExclusive cfg)).run (es ++ es') = some t := by
    rw [Machine.run, Machine.runFrom_append]
    exact ⟨s, h, Machine.restrict_mono (fun _ _ he => he.2) hrest⟩
  have hwhole' := freshTid_of_run hwhole
  have hlost := lost_of_rest (Machine.runFrom_of_restrict h)
    (Machine.runFrom_of_restrict (system_run hfresh)) hrest
  have hready' := ready_of_rest hrest hready
  have hgiving := giving_of_end hend
  have htaking := taking_of_end hnames hwhole hend
  have hpool := (pool_of_reachable ⟨_, exclusive_of_run hwhole⟩).1
  rw [hgiving, List.length_nil] at hpool
  have hlength : t.inFlight.length = (System.lost cfg.system (systemEvents cfg es)).length := by
    have hkeys := (System.keys_of_run (system_run hwhole')).length_eq
    rcases promises_of_run hwhole' with ⟨hpromises, hnodup⟩
    have hflight := (Pool.perm_rest hpromises hnodup (by
      intro promise hpromise
      rcases List.mem_map.mp hpromise with ⟨row, hrow, rfl⟩
      exact fulfilled_of_run hwhole' row hrow) (inFlight_of_end htaking hend)).length_eq
    rw [List.length_map, List.length_map, UnorderedMap.length_values] at hflight
    rw [tids_of_end hinv' hend, List.nil_append, hlost] at hkeys
    exact hflight.trans hkeys
  refine ⟨hlength, ?_⟩
  intro hfew
  have hvec : t.revisionVec = [] := by
    apply (pool_of_end htaking hready' hend).resolve_right
    omega
  refine ⟨hvec, ?_⟩
  intro hnone
  rw [hnone, List.length_nil, List.length_eq_zero_iff] at hlength
  have hlabels := (printsOnce hwhole).1
  rwa [hvec, hlength, List.map_nil, List.zipIdx_nil, List.append_nil, List.append_nil] at hlabels

end progress

section example_

-- the line "4 2 2 0"
def exampleConfig : Config where
  system := System.rescheduledConfig
  bench := { runs := 4, fns := 2, parallel := 2, sleep := 0, ints := [4, 2, 2, 0] }
  revisionVec := ["1".toList, "1".toList, "0".toList, "0".toList]
  function := "main".toList
  randMax := 2147483647

def exampleEnv : ScheduleEnv where
  getAction := fun _ => []
  now := 0
  beyond := fun _ => 'x'

-- The first request in flight is executed and its future fulfilled.
def answered : List Event :=
  let uninit : CompletionMessage :=
    .ofActivation ⟨⟨[], 0⟩, { statusCode := 0 }, ⟨0, []⟩⟩ (testActivation [] [])
  [
    .system (.receiveRequest 0 0),
    .system (.getWork 1),
    .system (.sendReply 0 .zero "\x7b\"done\":true\x7d".toList),
    .system (.receiveReply 0 uninit 9000000)
  ]

-- The request of the first activation is lost, the second one is completed.
def oneLost : List Event :=
  [
    .system (.registerNode 4 "10.0.0.2".toList),
    .begin,
    .take,
    .scheduleActivation 7 exampleEnv,
    .take,
    .scheduleActivation 42 exampleEnv,
    .system (.sendRequest 0),
    .system (.sendRequest 0),
    .system (.loseRequest 0)
  ] ++ answered ++ [.complete 0 9 100 109, .give 0]

example :
    Accepted "4 2 2 0".toList
      ∧ Bench.ofString "4 2 2 0".toList = exampleConfig.bench
      ∧ genRevisionVec .debug id reversing exampleConfig.bench.runs exampleConfig.bench.fns
        = .ok exampleConfig.revisionVec := by
  refine ⟨⟨by decide, by decide, by decide⟩, by decide, by decide⟩

theorem oneLost_run :
    (((machine exampleConfig).restrict (FreshExclusive exampleConfig)).run oneLost).isSome := by
  decide

theorem printsOnce_oneLost :
    ∃ s, ((machine exampleConfig).restrict (FreshExclusive exampleConfig)).run oneLost = some s
      ∧ s.rows.map (·.run.label) = [("1".toList, 2)]
      ∧ s.inFlight.map Run.label = [("1".toList, 1)]
      ∧ ∀ row ∈ s.rows, Reports exampleConfig oneLost row ∧ Quoted row.text := by
  have hrun := (Option.some_get oneLost_run).symm
  exact ⟨_, hrun, by decide, by decide, (printsOnce hrun).2.2.2.2⟩

-- The loop and the continuation both load the pool before either stores it.
def overlapping : List Event :=
  [
    .system (.registerNode 4 "10.0.0.2".toList),
    .begin,
    .take,
    .scheduleActivation 7 exampleEnv,
    .system (.sendRequest 0)
  ] ++ answered ++ [
    .take,
    .complete 0 9 100 109,
    .scheduleActivation 42 exampleEnv,
    .give 0,
    .take,
    .scheduleActivation 100 exampleEnv,
    .take,
    .scheduleActivation 7 exampleEnv
  ]

-- Then three activations are in flight with a pool of two.
example :
    (((machine exampleConfig).restrict (FreshTid exampleConfig)).run overlapping).map
      (·.inFlight.length) = some 3 := by
  decide

theorem exampleConfig_names (tids : List UInt64)
    (h : tids.length < exampleConfig.bench.parallel.toInt.toNat) :
    ∃ rand ≤ exampleConfig.randMax, exampleConfig.system.hash (CString.ofNat rand) ∉ tids := by
  have hlength : tids.length < 2 := h
  match tids with
  | [] => exact ⟨0, by decide, List.not_mem_nil⟩
  | [tid] =>
    by_cases htid : tid = 1
    . refine ⟨10, by decide, ?_⟩
      rw [htid]
      decide
    . refine ⟨0, by decide, ?_⟩
      rw [List.mem_singleton]
      exact fun heq => htid heq.symm

theorem finishes_oneLost :
    ∃ es t, ((machine exampleConfig).restrict (FreshExclusive exampleConfig)).run (oneLost ++ es) = some t
      ∧ t.inFlight.length = 1
      ∧ t.revisionVec = [] := by
  have hrun := (Option.some_get oneLost_run).symm
  have hfinishes := finishes exampleConfig_names hrun (by decide)
  rcases hfinishes.1 with ⟨es, t, hrest, hend⟩
  have hend' := (hfinishes.2 es t hrest).2 hend
  refine ⟨es, t, ?_, hend'.1, (hend'.2 (by decide)).1⟩
  rw [Machine.run, Machine.runFrom_append]
  exact ⟨_, hrun, Machine.restrict_mono (fun _ _ he => he.2) hrest⟩

end example_

end Benchmark
end Seuss
