import Seuss.Controller.Matching
import Seuss.System.Provenance

/-!
This module shows that an activation is completed with what an invoker core replied to that very
activation: the core was handed the arguments and the code that `ScheduleActivation` sent for it, and
nothing that comes in between mixes two activations up.
-/

namespace Seuss
namespace System

open Msg

-- The call that returned the future `promise` was for `am` and has sent `i`.
def SentFor (cfg : Config) (es : List Event) (promise : Nat) (am : ActivationMessage)
    (i : Invocation) : Prop :=
  ∃ before env code s, before ++ [.scheduleActivation env am code] <+: es
    ∧ (machine cfg).run before = some s
    ∧ s.hosted.clock = promise
    ∧ i = scheduledInvocation cfg.hash env am code

def RepliedTo (cfg : Config) (es : List Event) (i : Invocation) (exec : ExecStats) (res : CString) :
    Prop :=
  ∃ before k s, before ++ [.sendReply k exec res] <+: es
    ∧ (machine cfg).run before = some s
    ∧ s.working[k]? = some i

-- The record that a reply to `i` will find is that of the call that sent it.
def Awaited (cfg : Config) (es : List Event) (s : State) (i : Invocation) : Prop :=
  ∃ record, s.hosted.controller.recordMap.find? i.info.transactionId = some record
    ∧ SentFor cfg es record.promise record.am i

/--
`P` holds of every invocation between `ScheduleActivation` and its reply.
-/
structure InTransit (P : Invocation → Prop) (s : State) : Prop where
  spawned : ∀ event ∈ s.hosted.spawned, P ⟨event.stats, event.code, event.args⟩
  requests : ∀ buf ∈ s.requests, ∃ i, P i
    ∧ SeussChannel.sendRequest i.info i.args i.code = .ok buf
  queued : ∀ tid i, s.root.requestMap.find? tid = some i → P i
  working : ∀ i ∈ s.working, P i

section transit

variable {cfg : Config} {P Q : Invocation → Prop} {s s' : State} {e : Event}

theorem InTransit.mono (h : InTransit P s) (hinv : Inv s)
    (hPQ : ∀ i, P i → 0 < s.places i.info.transactionId → Q i) : InTransit Q s := by
  constructor
  . intro event hevent
    have hpos := List.count_pos_iff.mpr (List.mem_map_of_mem (f := (·.stats.transactionId)) hevent)
    apply hPQ _ (h.spawned event hevent)
    unfold State.places
    dsimp only
    omega
  . intro buf hbuf
    rcases h.requests buf hbuf with ⟨i, hi, hsend⟩
    refine ⟨i, hPQ i hi ?_, hsend⟩
    rw [SeussChannel.sendRequest_eq] at hsend
    cases hsend
    have hpos : 0 < (s.requests.map (·.header.record.transactionId)).count i.info.transactionId :=
      List.count_pos_iff.mpr (List.mem_map_of_mem (f := (·.header.record.transactionId)) hbuf)
    unfold State.places
    omega
  . intro tid i hfind
    have hmem := (hinv.queued tid).mpr (UnorderedMap.mem_iff_find?.mpr ⟨i, hfind⟩)
    have hpos := List.count_pos_iff.mpr hmem
    apply hPQ i (h.queued tid i hfind)
    rw [hinv.keyed tid i hfind]
    unfold State.places
    omega
  . intro i hi
    have hpos := List.count_pos_iff.mpr (List.mem_map_of_mem (f := (·.info.transactionId)) hi)
    apply hPQ i (h.working i hi)
    unfold State.places
    omega

theorem InTransit.receiveRequest {core k : Nat} (h : InTransit P s)
    (hsized : ∀ i, P i → i.info.argsSize = i.args.length)
    (hs : s.step cfg (.receiveRequest core k) = some (.ok s')) : InTransit P s' := by
  cases happens_of_step hs with
  | receiveRequest buf received hbuf hreceived hqueue =>
    rcases h.requests buf (List.mem_of_getElem? hbuf) with ⟨i, hi, hsend⟩
    have hreceive := SeussChannel.receiveMessage_request cfg.nativeBuild i.info i.args i.code
      (hsized i hi)
    rw [hsend] at hreceive
    cases hreceived.symm.trans hreceive
    rcases ok_of_bind hqueue with ⟨root, hadd, hs⟩
    cases hs
    refine ⟨h.spawned, Pool.forall_take h.requests k, ?_, h.working⟩
    intro tid j hfind
    dsimp only at hfind
    rw [(InvokerRoot.addWork_requestMap hadd).1] at hfind
    rcases UnorderedMap.find?_emplace hfind with hfind | rfl
    . exact h.queued tid j hfind
    . exact hi

theorem InTransit.getWork {core : Nat} (h : InTransit P s)
    (hs : s.step cfg (.getWork core) = some (.ok s')) : InTransit P s' := by
  cases happens_of_step hs with
  | idle root hwork =>
    rw [(InvokerRoot.getWork_eq_none hwork).2]
    exact h
  | getWork root i hwork =>
    rcases InvokerRoot.getWork_eq_some hwork with ⟨tid, _, hfind, hmap, _⟩
    refine ⟨h.spawned, h.requests, ?_, Pool.forall_put h.working (h.queued tid i hfind)⟩
    intro t j hj
    dsimp only at hj
    rw [hmap, UnorderedMap.find?_erase] at hj
    split at hj
    . cases hj
    . exact h.queued t j hj

theorem InTransit.receiveReply {k : Nat} {uninit : CompletionMessage} {endTime : Time}
    (h : InTransit P s) (hs : s.step cfg (.receiveReply k uninit endTime) = some (.ok s')) :
    InTransit P s' := by
  cases happens_of_step hs with
  | receiveReply buf received hbuf hreceive hresolve =>
    unfold resolveReceived at hresolve
    split at hresolve
    . rcases ok_of_bind hresolve with ⟨hosted, hstep, hs⟩
      cases hs
      refine ⟨?_, h.requests, h.queued, h.working⟩
      dsimp only
      rw [Controller.State.step_resolveActivation_spawned hstep]
      exact h.spawned
    . cases hresolve
      exact ⟨h.spawned, h.requests, h.queued, h.working⟩

theorem InTransit.step (h : InTransit P s) (hsized : ∀ i, P i → i.info.argsSize = i.args.length)
    (hnew : ∀ env am code, e = .scheduleActivation env am code →
      P (scheduledInvocation cfg.hash env am code))
    (hs : s.step cfg e = some (.ok s')) : InTransit P s' := by
  cases e with
  | registerNode cpuNum nid =>
    cases hs
    exact ⟨h.spawned, h.requests, h.queued, h.working⟩
  | scheduleActivation env am code =>
    cases happens_of_step hs with
    | scheduleActivation hosted hstep =>
      rcases Controller.State.step_scheduleActivation_spawned hstep with
        ⟨event, hspawned, hstats, hargs, hcode⟩
      refine ⟨?_, h.requests, h.queued, h.working⟩
      dsimp only
      rw [hspawned]
      apply Pool.forall_put h.spawned
      rw [hstats, hargs, hcode]
      exact hnew env am code rfl
  | sendRequest k =>
    cases happens_of_step hs with
    | sendRequest event buf hevent hsend =>
      refine ⟨Pool.forall_take h.spawned k, ?_, h.queued, h.working⟩
      apply Pool.forall_put h.requests
      exact ⟨_, h.spawned event (List.mem_of_getElem? hevent), hsend⟩
  | loseRequest k =>
    cases happens_of_step hs
    exact ⟨h.spawned, Pool.forall_take h.requests k, h.queued, h.working⟩
  | receiveRequest core k => exact h.receiveRequest hsized hs
  | getWork core => exact h.getWork hs
  | sendReply k exec res =>
    cases happens_of_step hs
    exact ⟨h.spawned, h.requests, h.queued, Pool.forall_take h.working k⟩
  | loseReply k =>
    cases happens_of_step hs
    exact ⟨h.spawned, h.requests, h.queued, h.working⟩
  | receiveReply k uninit endTime => exact h.receiveReply hs

end transit

section history

variable {cfg : Config} {es es' : List Event} {promise : Nat} {am : ActivationMessage} {i : Invocation}
  {exec : ExecStats} {res : CString}

theorem SentFor.mono (h : SentFor cfg es promise am i) (hes : es <+: es') :
    SentFor cfg es' promise am i := by
  rcases h with ⟨before, env, code, s, hbefore, hs⟩
  exact ⟨before, env, code, s, hbefore.trans hes, hs⟩

theorem RepliedTo.mono (h : RepliedTo cfg es i exec res) (hes : es <+: es') :
    RepliedTo cfg es' i exec res := by
  rcases h with ⟨before, k, s, hbefore, hs⟩
  exact ⟨before, k, s, hbefore.trans hes, hs⟩

theorem SentFor.sized (h : SentFor cfg es promise am i) : i.info.argsSize = i.args.length := by
  rcases h with ⟨_, _, _, _, _, _, _, rfl⟩
  rfl

end history

section records

variable {cfg : Config} {es : List Event} {s s' : State} {e : Event}

/--
A record stays what it is until its transaction is completed.
-/
theorem find?_recordMap_of_step {tid : UInt64} {record : ActivationRecord}
    (hfresh : FreshTid cfg s e) (hs : s.step cfg e = some (.ok s'))
    (hfind : s.hosted.controller.recordMap.find? tid = some record) :
    s'.hosted.controller.recordMap.find? tid = some record ∨ s'.recorded tid = 0 := by
  cases happens_of_step hs with
  | registerNode hosted hstep =>
    cases hstep
    exact .inl hfind
  | scheduleActivation hosted hstep =>
    have hnone := Option.isNone_iff_eq_none.mp hfresh
    rcases Controller.State.step_scheduleActivation_eq_ok hnone hstep with ⟨_, hmap, _, _⟩
    left
    dsimp only
    rw [hmap, UnorderedMap.find?_insert_ne, hfind]
    rintro rfl
    rw [hnone] at hfind
    cases hfind
  | sendRequest | loseRequest | idle | getWork | sendReply | loseReply => exact .inl hfind
  | receiveRequest buf received hbuf hreceive hqueue =>
    rcases queueInvocation_eq_ok hqueue with ⟨root, added, rfl⟩
    exact .inl hfind
  | receiveReply buf received hbuf hreceive hresolve =>
    rcases resolveReceived_cases hresolve with ⟨clock, _, rfl, _⟩ | ⟨istats, res, record', _, _, rfl⟩
    . exact .inl hfind
    . by_cases htid : tid = istats.transactionId
      . right
        unfold State.recorded
        dsimp only
        rw [htid, UnorderedMap.find?_erase_self]
        rfl
      . left
        dsimp only
        rw [UnorderedMap.find?_erase_ne _ htid]
        exact hfind

theorem replies_of_step {buf : IOBuf} (hs : s.step cfg e = some (.ok s')) (hbuf : buf ∈ s'.replies) :
    buf ∈ s.replies
      ∨ ∃ k exec res i, e = .sendReply k exec res
        ∧ s.working[k]? = some i
        ∧ SeussChannel.sendReply { i.info with exec := exec } res = .ok buf := by
  cases happens_of_step hs with
  | registerNode | scheduleActivation | sendRequest | loseRequest | idle | getWork => exact .inl hbuf
  | receiveRequest buf' received hbuf' hreceive hqueue =>
    rcases queueInvocation_eq_ok hqueue with ⟨root, added, rfl⟩
    exact .inl hbuf
  | sendReply i buf' hi hsend =>
    rw [List.mem_append, List.mem_singleton] at hbuf
    rcases hbuf with hbuf | rfl
    . exact .inl hbuf
    . exact .inr ⟨_, _, _, i, rfl, hi, hsend⟩
  | loseReply buf' hbuf' => exact .inl (List.mem_of_mem_eraseIdx hbuf)
  | receiveReply buf' received hbuf' hreceive hresolve =>
    left
    rcases resolveReceived_cases hresolve with ⟨clock, _, rfl, _⟩ | ⟨_, _, _, _, _, rfl⟩
    . exact List.mem_of_mem_eraseIdx hbuf
    . exact List.mem_of_mem_eraseIdx hbuf

theorem fulfilled_of_step {f : Controller.Fulfilled} (hs : s.step cfg e = some (.ok s'))
    (hf : f ∈ s'.hosted.fulfilled) :
    f ∈ s.hosted.fulfilled
      ∨ ∃ buf istats res record uninit endTime, buf ∈ s.replies
        ∧ SeussChannel.receiveMessage .hosted cfg.hostedBuild buf
          = .ok (.resolveActivation istats res)
        ∧ s.hosted.controller.recordMap.find? istats.transactionId = some record
        ∧ f = ⟨record.promise, s.hosted.clock,
          Controller.completion uninit record istats res endTime⟩ := by
  cases happens_of_step hs with
  | sendRequest | loseRequest | idle | getWork | sendReply | loseReply => exact .inl hf
  | registerNode hosted hstep =>
    cases hstep
    exact .inl hf
  | scheduleActivation hosted hstep =>
    rcases Controller.State.step_scheduleActivation_cases hstep with ⟨_, _, _, rfl⟩
    exact .inl hf
  | receiveRequest buf received hbuf hreceive hqueue =>
    rcases queueInvocation_eq_ok hqueue with ⟨root, added, rfl⟩
    exact .inl hf
  | receiveReply buf received hbuf hreceive hresolve =>
    rcases resolveReceived_cases hresolve with ⟨clock, _, rfl, _⟩ | ⟨istats, res, record, rfl, hfind, rfl⟩
    . exact .inl hf
    . rw [List.mem_append, List.mem_singleton] at hf
      rcases hf with hf | rfl
      . exact .inl hf
      . exact .inr ⟨buf, istats, res, record, _, _, List.mem_of_getElem? hbuf, hreceive, hfind, rfl⟩

theorem fulfilled_mono (hs : s.step cfg e = some (.ok s')) :
    s.hosted.fulfilled <+: s'.hosted.fulfilled := by
  cases happens_of_step hs with
  | sendRequest | loseRequest | idle | getWork | sendReply | loseReply => exact List.prefix_refl _
  | registerNode hosted hstep =>
    cases hstep
    exact List.prefix_refl _
  | scheduleActivation hosted hstep =>
    rcases Controller.State.step_scheduleActivation_cases hstep with ⟨_, _, _, rfl⟩
    exact List.prefix_refl _
  | receiveRequest buf received hbuf hreceive hqueue =>
    rcases queueInvocation_eq_ok hqueue with ⟨root, added, rfl⟩
    exact List.prefix_refl _
  | receiveReply buf received hbuf hreceive hresolve =>
    rcases resolveReceived_cases hresolve with ⟨clock, _, rfl, _⟩ | ⟨istats, res, record, _, _, rfl⟩
    . exact List.prefix_refl _
    . exact List.prefix_append _ _

theorem nids_mono (hs : s.step cfg e = some (.ok s')) :
    s.hosted.controller.nids <+: s'.hosted.controller.nids := by
  cases happens_of_step hs with
  | sendRequest | loseRequest | idle | getWork | sendReply | loseReply => exact List.prefix_refl _
  | registerNode hosted hstep =>
    cases hstep
    exact List.prefix_append _ _
  | scheduleActivation hosted hstep =>
    rcases Controller.State.step_scheduleActivation_cases hstep with ⟨c, _, hcall, rfl⟩
    cases (Controller.scheduleActivation_cases hcall).2.1
    exact List.prefix_refl _
  | receiveRequest buf received hbuf hreceive hqueue =>
    rcases queueInvocation_eq_ok hqueue with ⟨root, added, rfl⟩
    exact List.prefix_refl _
  | receiveReply buf received hbuf hreceive hresolve =>
    rcases resolveReceived_cases hresolve with ⟨clock, _, rfl, _⟩ | ⟨istats, res, record, _, _, rfl⟩
    . exact List.prefix_refl _
    . exact List.prefix_refl _

end records

-- The future `f.promise` was returned for `am`, whose invocation was replied to with `res`.
def Completes (cfg : Config) (es : List Event) (f : Controller.Fulfilled) : Prop :=
  ∃ am i exec res, SentFor cfg es f.promise am i
    ∧ RepliedTo cfg es i exec res
    ∧ Controller.Carries f.message am { i.info with argsSize := res.length, exec := exec } res

structure Answered (cfg : Config) (es : List Event) (s : State) : Prop where
  inTransit : InTransit (Awaited cfg es s) s
  replies : ∀ buf ∈ s.replies, ∃ i exec res, Awaited cfg es s i
    ∧ RepliedTo cfg es i exec res
    ∧ SeussChannel.sendReply { i.info with exec := exec } res = .ok buf
  fulfilled : ∀ f ∈ s.hosted.fulfilled, Completes cfg es f

theorem Answered.new : Answered cfg [] State.new where
  inTransit := by
    constructor <;> simp [State.new, Controller.State.new, InvokerRoot.bootstrapped]
  replies := by simp [State.new]
  fulfilled := by simp [State.new, Controller.State.new]

section answered

variable {cfg : Config} {es : List Event} {s s' : State} {e : Event} {i : Invocation}

theorem Awaited.step (h : Awaited cfg es s i) (hfresh : FreshTid cfg s e)
    (hs : s.step cfg e = some (.ok s')) (hinv : Inv s')
    (hplaces : 0 < s'.places i.info.transactionId) : Awaited cfg (es ++ [e]) s' i := by
  rcases h with ⟨record, hfind, hsent⟩
  have hrecorded := hinv.places i.info.transactionId
  rcases find?_recordMap_of_step hfresh hs hfind with hfind | hgone
  . exact ⟨record, hfind, hsent.mono (List.prefix_append _ _)⟩
  . omega

theorem awaited_of_scheduleActivation {env : Controller.ScheduleEnv} {am : ActivationMessage}
    {code : CString} (hes : (machine cfg).run es = some s)
    (hfresh : FreshTid cfg s (.scheduleActivation env am code))
    (hs : s.step cfg (.scheduleActivation env am code) = some (.ok s')) :
    Awaited cfg (es ++ [.scheduleActivation env am code]) s'
      (scheduledInvocation cfg.hash env am code) := by
  cases happens_of_step hs with
  | scheduleActivation hosted hstep =>
    have hnone := Option.isNone_iff_eq_none.mp hfresh
    rcases Controller.State.step_scheduleActivation_eq_ok hnone hstep with ⟨_, hmap, _, _⟩
    refine ⟨⟨s.hosted.clock, am, env.now⟩, ?_, es, env, code, s, List.prefix_refl _, hes, rfl, rfl⟩
    dsimp only
    rw [hmap]
    apply UnorderedMap.find?_insert_self

theorem Answered.completes {f : Controller.Fulfilled} (h : Answered cfg es s)
    (hs : s.step cfg e = some (.ok s')) (hf : f ∈ s'.hosted.fulfilled) :
    Completes cfg es f := by
  rcases fulfilled_of_step hs hf with
    hf | ⟨buf, istats, res, record, uninit, endTime, hbuf, hreceive, hfind, rfl⟩
  . exact h.fulfilled f hf
  . rcases h.replies buf hbuf with ⟨i, exec, res', ⟨record', hfind', hsent⟩, hreplied, hsend⟩
    have hreceive' := SeussChannel.receiveMessage_reply cfg.hostedBuild { i.info with exec := exec }
      res'
    rw [hsend] at hreceive'
    cases hreceive.symm.trans hreceive'
    cases hfind.symm.trans hfind'
    exact ⟨_, i, exec, res, hsent, hreplied, Controller.completion_carries ..⟩

theorem Answered.step (h : Answered cfg es s) (hinv : Inv s) (hes : (machine cfg).run es = some s)
    (hfresh : FreshTid cfg s e) (hs : s.step cfg e = some (.ok s')) :
    Answered cfg (es ++ [e]) s' := by
  have hinv' : Inv s' := hinv.step hfresh hs
  have hprefix : es <+: es ++ [e] := List.prefix_append _ _
  constructor
  . -- what was awaited stays so as long as it is in transit
    have hold : InTransit (fun i => Awaited cfg es s i ∨ Awaited cfg (es ++ [e]) s' i) s :=
      h.inTransit.mono hinv fun _ hi _ => .inl hi
    refine (hold.step ?_ ?_ hs).mono hinv' ?_
    . rintro i (⟨_, _, hsent⟩ | ⟨_, _, hsent⟩)
      . exact hsent.sized
      . exact hsent.sized
    . rintro env am code rfl
      exact .inr (awaited_of_scheduleActivation hes hfresh hs)
    . rintro i (hi | hi) hplaces
      . exact hi.step hfresh hs hinv' hplaces
      . exact hi
  . intro buf hbuf
    have hplaces : 0 < s'.places buf.header.record.transactionId := by
      have hpos := List.count_pos_iff.mpr
        (List.mem_map_of_mem (f := (·.header.record.transactionId)) hbuf)
      unfold State.places
      omega
    rcases replies_of_step hs hbuf with hbuf | ⟨k, exec, res, i, rfl, hi, hsend⟩
    . rcases h.replies buf hbuf with ⟨i, exec, res, hawaited, hreplied, hsend⟩
      refine ⟨i, exec, res, ?_, hreplied.mono hprefix, hsend⟩
      rw [SeussChannel.sendReply_eq] at hsend
      cases hsend
      exact hawaited.step hfresh hs hinv' hplaces
    . have hawaited := h.inTransit.working i (List.mem_of_getElem? hi)
      refine ⟨i, exec, res, ?_, ⟨es, k, s, List.prefix_refl _, hes, hi⟩, hsend⟩
      rw [SeussChannel.sendReply_eq] at hsend
      cases hsend
      exact hawaited.step hfresh hs hinv' hplaces
  . intro f hf
    rcases h.completes hs hf with ⟨am, i, exec, res, hsent, hreplied, hcarries⟩
    exact ⟨am, i, exec, res, hsent.mono hprefix, hreplied.mono hprefix, hcarries⟩

theorem answered_of_run (h : ((machine cfg).restrict (FreshTid cfg)).run es = some s) :
    Answered cfg es s := by
  refine Machine.run_induction _ (P := Answered cfg) .new ?_ h
  intro es s e t hes hanswered hstep
  rw [Machine.restrict_step, machine_step] at hstep
  exact hanswered.step (reachable_inv ⟨es, hes⟩) (Machine.runFrom_of_restrict hes) hstep.1 hstep.2

-- What happens elsewhere leaves the controller alone.
theorem correlates_of_step {t : Controller.RecordTable} (h : Controller.Correlates s.hosted t)
    (hfresh : FreshTid cfg s e) (hs : s.step cfg e = some (.ok s')) :
    Controller.Correlates s'.hosted t
      ∨ ∃ event t', t.step event = some t' ∧ Controller.Correlates s'.hosted t' := by
  cases happens_of_step hs with
  | @registerNode cpuNum nid hosted hstep =>
    have hother : Controller.FreshTid cfg.hash s.hosted (.registerNode cpuNum nid) := trivial
    rcases h.step hother hstep with ⟨t', ht', h'⟩
    exact .inr ⟨_, t', ht', h'⟩
  | @scheduleActivation env am code hosted hstep =>
    have hnew : Controller.FreshTid cfg.hash s.hosted (.scheduleActivation env am code) := hfresh
    rcases h.step hnew hstep with ⟨t', ht', h'⟩
    exact .inr ⟨_, t', ht', h'⟩
  | sendRequest event buf hevent hsend => exact .inl ⟨h.clock, h.records, h.fulfilled⟩
  | loseRequest | idle | getWork | sendReply | loseReply => exact .inl h
  | receiveRequest buf received hbuf hreceive hqueue =>
    rcases queueInvocation_eq_ok hqueue with ⟨root, added, rfl⟩
    exact .inl h
  | @receiveReply k uninit endTime _ buf received hbuf hreceive hresolve =>
    unfold resolveReceived at hresolve
    split at hresolve
    . next istats res =>
      rcases ok_of_bind hresolve with ⟨hosted, hstep, hs⟩
      cases hs
      have hreply : Controller.FreshTid cfg.hash s.hosted
          (.resolveActivation uninit istats res endTime) := trivial
      rcases h.step hreply hstep with ⟨t', ht', h'⟩
      exact .inr ⟨_, t', ht', h'⟩
    . cases hresolve
      exact .inl h

theorem correlates_of_reachable (h : ((machine cfg).restrict (FreshTid cfg)).Reachable s) :
    ∃ events t, Correlation.Table.Inv events t ∧ Controller.Correlates s.hosted t := by
  refine h.invariant (P := fun s => ∃ events t, Correlation.Table.Inv events t
    ∧ Controller.Correlates s.hosted t) ?_ ?_
  . refine ⟨[], .empty, .empty, ?_⟩
    constructor <;> simp [Machine.restrict, machine, State.new, Controller.State.new, Controller.new,
      Correlation.Table.empty]
  . rintro s e s' _ ⟨events, t, hinv, hcorr⟩ hs
    rw [Machine.restrict_step, machine_step] at hs
    rcases correlates_of_step hcorr hs.1 hs.2 with hcorr | ⟨event, t', ht', hcorr⟩
    . exact ⟨events, t, hinv, hcorr⟩
    . exact ⟨_, t', hinv.step ht', hcorr⟩

theorem nodup_of_correlates {events : List (Correlation.Event UInt64 (ActivationMessage × Time)
    Controller.Reply)} {t : Controller.RecordTable} (hinv : Correlation.Table.Inv events t)
    (h : Controller.Correlates s.hosted t) :
    (s.hosted.fulfilled.map Controller.Fulfilled.promise).Nodup := by
  rw [h.fulfilled, List.map_map]
  exact hinv.nodup

theorem clock_of_step (hs : s.step cfg e = some (.ok s')) : s.hosted.clock ≤ s'.hosted.clock := by
  cases happens_of_step hs with
  | registerNode hosted hstep =>
    cases hstep
    exact Nat.le_succ _
  | @scheduleActivation env am code hosted hstep =>
    rcases Controller.State.step_scheduleActivation_cases hstep with ⟨_, _, _, rfl⟩
    exact Nat.le_succ _
  | sendRequest | loseRequest | idle | getWork | sendReply | loseReply => exact Nat.le_refl _
  | receiveRequest buf received hbuf hreceive hqueue =>
    rcases queueInvocation_eq_ok hqueue with ⟨root, added, rfl⟩
    exact Nat.le_refl _
  | receiveReply buf received hbuf hreceive hresolve =>
    rcases resolveReceived_cases hresolve with ⟨clock, hle, rfl, _⟩ | ⟨_, _, _, _, _, rfl⟩
    . exact hle
    . exact Nat.le_succ _

theorem clock_of_scheduleActivation {env : Controller.ScheduleEnv} {am : ActivationMessage}
    {code : CString} (hs : s.step cfg (.scheduleActivation env am code) = some (.ok s')) :
    s'.hosted.clock = s.hosted.clock + 1 := by
  cases happens_of_step hs with
  | scheduleActivation hosted hstep =>
    rcases Controller.State.step_scheduleActivation_cases hstep with ⟨_, _, _, rfl⟩
    rfl

theorem clock_of_runFrom (h : (machine cfg).runFrom s es = some s') :
    s.hosted.clock ≤ s'.hosted.clock := by
  induction es generalizing s with
  | nil =>
    cases h
    exact Nat.le_refl _
  | cons e es ih =>
    rw [Machine.runFrom_cons] at h
    rcases h with ⟨u, hu, ht⟩
    exact Nat.le_trans (clock_of_step (machine_step.mp hu)) (ih ht)

-- A call that comes later in the run returns a later future.
theorem clock_lt_of_prefix {before before' : List Event} {env : Controller.ScheduleEnv}
    {am : ActivationMessage} {code : CString} {t u : State}
    (hbefore : before ++ [.scheduleActivation env am code] <+: before')
    (ht : (machine cfg).run before = some t) (hu : (machine cfg).run before' = some u) :
    t.hosted.clock < u.hosted.clock := by
  rcases hbefore with ⟨rest, rfl⟩
  rw [Machine.run, Machine.runFrom_append] at hu
  rcases hu with ⟨v, hv, hrest⟩
  rcases (Machine.run_concat _).mp hv with ⟨t', ht', hstep⟩
  cases ht.symm.trans ht'
  have hnext := clock_of_scheduleActivation (machine_step.mp hstep)
  have hle := clock_of_runFrom hrest
  omega

theorem SentFor.unique {promise : Nat} {am am' : ActivationMessage} {i i' : Invocation}
    (h : SentFor cfg es promise am i) (h' : SentFor cfg es promise am' i') : am = am' ∧ i = i' := by
  rcases h with ⟨before, env, code, t, hprefix, ht, hclock, rfl⟩
  rcases h' with ⟨before', env', code', t', hprefix', ht', hclock', rfl⟩
  have hnot {b b' : List Event} {v : Controller.ScheduleEnv} {m : ActivationMessage} {c : CString}
      {w w' : State} (hb : b ++ [.scheduleActivation v m c] <+: es) (hb' : b' <+: es)
      (hw : (machine cfg).run b = some w) (hw' : (machine cfg).run b' = some w')
      (heq : w.hosted.clock = w'.hosted.clock) : b'.length ≤ b.length := by
    by_contra hlt
    have hle : (b ++ [Event.scheduleActivation v m c]).length ≤ b'.length := by
      rw [List.length_append, List.length_singleton]
      omega
    have := clock_lt_of_prefix (List.prefix_of_prefix_length_le hb hb' hle) hw hw'
    omega
  have hbefore := (List.prefix_append _ _).trans hprefix
  have hbefore' := (List.prefix_append _ _).trans hprefix'
  have heq : t.hosted.clock = t'.hosted.clock := hclock.trans hclock'.symm
  have hlen : before.length = before'.length :=
    Nat.le_antisymm (hnot hprefix' hbefore ht' ht heq.symm) (hnot hprefix hbefore' ht ht' heq)
  have hwhole := List.prefix_of_prefix_length_le hprefix hprefix' (by simp [hlen])
  have hsame := hwhole.eq_of_length (by simp [hlen])
  cases (List.append_inj hsame hlen).2
  exact ⟨rfl, rfl⟩

/--
Where an invocation is replied to at most once and no transaction id is outstanding twice, no future is
fulfilled twice, and each one that is fulfilled carries the data of the activation that it was returned
for and a result which a core replied to the very arguments and code that were sent for it.
-/
theorem endToEnd (h : ((machine cfg).restrict (FreshTid cfg)).run es = some s) :
    (s.hosted.fulfilled.map Controller.Fulfilled.promise).Nodup
      ∧ ∀ f ∈ s.hosted.fulfilled, Completes cfg es f := by
  rcases correlates_of_reachable ⟨es, h⟩ with ⟨events, t, hinv, hcorr⟩
  exact ⟨nodup_of_correlates hinv hcorr, (answered_of_run h).fulfilled⟩

end answered

-- Two activations of one function change places on the way there and on the way back.
def crossing : List Event :=
  let env : Controller.ScheduleEnv :=
    { getAction := fun _ => "code".toList, now := 0, beyond := fun _ => 'x' }
  let uninit : CompletionMessage :=
    .ofActivation ⟨⟨[], 0⟩, { statusCode := 0 }, ⟨0, []⟩⟩ (testActivation [] [])
  [
    .registerNode 4 "10.0.0.2".toList,
    .scheduleActivation env (testActivation "a".toList "r".toList) [],
    .scheduleActivation env (testActivation "bb".toList "r".toList) [],
    .sendRequest 1,
    .sendRequest 0,
    .receiveRequest 0 0,
    .receiveRequest 0 0,
    .getWork 1,
    .getWork 0,
    .sendReply 1 .zero "[1]".toList,
    .sendReply 0 .zero "[2]".toList,
    .receiveReply 1 uninit 9000000,
    .receiveReply 0 uninit 9000000
  ]

theorem crossing_run :
    (((machine rescheduledConfig).restrict (FreshTid rescheduledConfig)).run crossing).isSome := by
  decide

theorem endToEnd_crossing :
    ∃ s, ((machine rescheduledConfig).restrict (FreshTid rescheduledConfig)).run crossing = some s
      ∧ s.hosted.fulfilled.map (fun f => (f.promise, f.message.response.result))
        = [(2, "[2]".toList), (1, "[1]".toList)]
      ∧ ∀ f ∈ s.hosted.fulfilled, Completes rescheduledConfig crossing f := by
  have hrun := (Option.some_get crossing_run).symm
  exact ⟨_, hrun, by decide, (endToEnd hrun).2⟩

end System
end Seuss
