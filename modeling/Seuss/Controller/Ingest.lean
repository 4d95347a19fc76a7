import Seuss.Controller.Basic
import Seuss.OpenWhisk.RoundTrip

/-!
This module contains the way of a payload from Kafka through `ActivationMessage(json)` and
`ScheduleActivation`. What these read that is not there, or not what they take it for, is a parameter:
the way is sound where nothing that is read later depends on it.
-/

namespace Seuss
namespace Controller

open Msg

structure Garbage where
  -- the memory that the message is constructed in
  uninit : ActivationMessage
  -- `YAJL_GET_INTEGER` of a node that is no number
  misread : Json.Tree → Int64
  -- what comes after the terminating NUL of `activationId_`
  beyond : Nat → Char

def misreading (yajl : Yajl) (misread : Json.Tree → Int64) : Yajl :=
  { yajl with getInteger := fun v => if YajlType.number.holds v then yajl.getInteger v else misread v }

-- `YAJL_GET_*` is only given nodes of the type that was asked for.
def Typed (yajl : Yajl) : Prop :=
  ∀ node path t v, yajl.treeGet node path t = some v → t.holds v = true

-- What is read of an activation later: the request, the copy that is kept in `record_map_` and what
-- `CompletionMessage(am)` copies of that. The members of `uninit` in it are set before they are read.
structure Ingested where
  stats : InvocationStats
  args : CString
  code : CString
  record : ActivationMessage
  completion : CompletionMessage

variable (hash : CString → UInt64) (env : ScheduleEnv) (uninit : CompletionMessage)

def readLater (beyond : Nat → Char) (am : ActivationMessage) : Ingested where
  stats := requestStats hash { env with beyond := beyond } am
  args := am.content
  code := obtainCode env am []
  record := am
  completion := .ofActivation uninit am

-- The request that `ScheduleActivation` sends and the record that it keeps are what is read later.
theorem scheduleActivation_readLater {build : Build} {c c' : Controller} {promise : Nat}
    {am : ActivationMessage} {ev : SendRequestEvent}
    (h : scheduleActivation hash build env c promise am [] = .ok (c', ev)) :
    ev.stats = (readLater hash env uninit env.beyond am).stats
      ∧ ev.args = (readLater hash env uninit env.beyond am).args
      ∧ ev.code = (readLater hash env uninit env.beyond am).code
      ∧ c'.recordMap = (c.recordMap.emplace (tid hash am)
          { promise, am := (readLater hash env uninit env.beyond am).record, start := env.now }).1 := by
  rcases ok_of_bind h with ⟨_, _, h⟩
  cases hnids : c.nids with
  | nil =>
    simp only [hnids] at h
    rcases ok_of_bind h with ⟨_, _, h⟩
    cases h
  | cons nid nids =>
    simp only [hnids] at h
    cases h
    exact ⟨rfl, rfl, rfl, rfl⟩

def ingest (yajl : Yajl) (fuel : Nat) (g : Garbage) (json : CString) : Except Msg.Fault Ingested := do
  let am ← ActivationMessage.ofJson (misreading yajl g.misread) fuel g.uninit json
  return readLater hash env uninit g.beyond am

/--
`errbuf` is not overrun, the loop over the content ends, every index is one of the array, no string is
made of a null pointer, the copy ends with a NUL and nothing that is read later depends on garbage.
-/
def Sound (yajl : Yajl) (json : CString) : Prop :=
  ∃ fuel out, (∀ g, ingest hash env uninit yajl fuel g json = .ok out)
    ∧ '\x00' ∈ out.stats.activationId.val

-- without the values of the two members of the record that are copied with it and that nobody uses
def Ingested.used (out : Ingested) : Ingested :=
  {
    out with
    record := {
      out.record with
      rootControllerIndex := { out.record.rootControllerIndex with instance_ := 0 }
      blocking := false
    }
  }

-- The same, but for the values of `instance_` and `blocking_`.
def SoundButUnused (yajl : Yajl) (json : CString) : Prop :=
  ∃ fuel out, (∀ g, (ingest hash env uninit yajl fuel g json).map Ingested.used = .ok out)
    ∧ '\x00' ∈ out.stats.activationId.val

structure IngestibleNode (yajl : Yajl) (node : Json.Tree) : Prop where
  -- 33 characters with the terminating NUL
  activationId : ∃ s, yajl.treeGet node ["activationId".toList] .string = some (.str s)
    ∧ 32 ≤ (CString.cstr s).length
  transid : ∃ name id rest,
    yajl.treeGet node ["transid".toList] .array = some (.arr (.str name :: .num id :: rest))
  content : ∀ members, yajl.treeGet node ["content".toList] .object = some (.obj members) →
    members.length ≤ 65535
      ∧ ∀ m ∈ members, YajlType.string.holds m.2 = true ∨ YajlType.number.holds m.2 = true

def Ingestible (yajl : Yajl) (json : CString) : Prop :=
  json.length ≤ errbufSize ∧ ∃ node, yajl.treeParse (CString.cstr json) = some node ∧ IngestibleNode yajl node

variable {yajl : Yajl} {node : Json.Tree} {json : CString}

section copy

variable {id : CString}

theorem val_copyActivationId (beyond : Nat → Char) (id : CString) :
    (copyActivationId beyond id).val
      =
    id.take 33 ++ ('\x00' :: (List.range 33).map beyond).take (33 - id.length) ++ ['\x00'] := by
  simp only [copyActivationId, List.take_append]

theorem mem_copyActivationId (beyond : Nat → Char) (id : CString) :
    '\x00' ∈ (copyActivationId beyond id).val := by
  simp [val_copyActivationId]

-- The 33 characters that are copied are there.
theorem copyActivationId_iff :
    (∀ beyond beyond', copyActivationId beyond id = copyActivationId beyond' id) ↔ 32 ≤ id.length := by
  constructor
  . intro h
    by_contra hlt
    have heq := congrArg Subtype.val (h (fun _ => 'a') (fun _ => 'b'))
    rw [val_copyActivationId, val_copyActivationId, List.append_cancel_right_eq,
      List.append_cancel_left_eq] at heq
    obtain ⟨n, hn⟩ : ∃ n, 33 - id.length = n + 2 := ⟨31 - id.length, by omega⟩
    rw [hn] at heq
    simp [List.range_succ_eq_map] at heq
  . intro hle beyond beyond'
    apply Subtype.ext
    rw [val_copyActivationId, val_copyActivationId]
    obtain hzero | hone : 33 - id.length = 0 ∨ 33 - id.length = 1 := by omega
    . rw [hzero]
      rfl
    . rw [hone]
      rfl

end copy

section strings

theorem getStringAt_misreading (misread : Json.Tree → Int64) (path : List CString) (s : CString) :
    getStringAt (misreading yajl misread) node path s = getStringAt yajl node path s :=
  rfl

theorem getStringAt_cases (hyajl : Typed yajl) (path : List CString) (s : CString) :
    (yajl.treeGet node path .string = none ∧ getStringAt yajl node path s = .ok s)
      ∨ ∃ x, yajl.treeGet node path .string = some (.str x)
          ∧ getStringAt yajl node path s = .ok (CString.cstr x) := by
  unfold getStringAt
  cases hget : yajl.treeGet node path .string with
  | none => exact .inl ⟨rfl, rfl⟩
  | some v =>
    cases v with
    | str x => exact .inr ⟨x, rfl, rfl⟩
    | _ => cases hyajl _ _ _ _ hget

theorem getStringAt_ok (hyajl : Typed yajl) (path : List CString) (s : CString) :
    ∃ x, getStringAt yajl node path s = .ok x := by
  rcases getStringAt_cases hyajl path s with ⟨_, hs⟩ | ⟨x, _, hx⟩
  . exact ⟨s, hs⟩
  . exact ⟨_, hx⟩

end strings

section content

variable {members : List (CString × Json.Tree)}

theorem contentLoop_congr {yajl' : Yajl}
    (h : ∀ m ∈ members, contentMember yajl m = contentMember yajl' m) (fuel : Nat) (i : UInt16)
    (ss : CString) :
    contentLoop yajl members fuel i ss = contentLoop yajl' members fuel i ss := by
  induction fuel generalizing i ss with
  | zero => rfl
  | succ fuel ih =>
    simp only [contentLoop]
    cases hget : members[i.toNat]? with
    | none => rfl
    | some m => simp only [h m (List.mem_of_getElem? hget), ih]

theorem contentMember_misreading {m : CString × Json.Tree} (misread : Json.Tree → Int64)
    (h : YajlType.string.holds m.2 = true ∨ YajlType.number.holds m.2 = true) :
    contentMember (misreading yajl misread) m = contentMember yajl m := by
  rcases m with ⟨k, v⟩
  cases v with
  | str s => rfl
  | num x => rfl
  | null | bool | arr | obj => rcases h with h | h <;> cases h

theorem getContent_ok (hyajl : Typed yajl) (h : IngestibleNode yajl node) :
    ∃ fuel c, ∀ misread, getContent (misreading yajl misread) fuel node = .ok c := by
  cases hget : yajl.treeGet node ["content".toList] .object with
  | none =>
    refine ⟨0, "\x7b\x7d".toList, ?_⟩
    intro misread
    simp only [getContent, misreading, hget]
  | some v =>
    cases v with
    | obj members =>
      rcases h.content members hget with ⟨hlength, htypes⟩
      rcases (getContent_iff yajl hget).mpr ⟨by omega, rfl⟩ with ⟨fuel, hc⟩
      refine ⟨fuel, contentText yajl members, ?_⟩
      intro misread
      rw [← hc]
      have hloop : ∀ fuel i ss, contentLoop (misreading yajl misread) members fuel i ss
          = contentLoop yajl members fuel i ss :=
        contentLoop_congr fun m hm => contentMember_misreading misread (htypes m hm)
      have hget' : (misreading yajl misread).treeGet node ["content".toList] .object
          = some (.obj members) := hget
      simp only [getContent, hget, hget', hloop]
    | _ => cases hyajl _ _ _ _ hget

-- Numbers of one digit, so that the texts of all members have the same length in both.
theorem length_contentMember (m : CString × Json.Tree) :
    (contentMember (misreading yajl fun _ => 0) m).length
      =
    (contentMember (misreading yajl fun _ => 1) m).length := by
  rcases m with ⟨k, v⟩
  cases v <;> simp [contentMember, contentValue, misreading, YajlType.holds] <;> rfl

theorem holds_of_contentMember {m : CString × Json.Tree}
    (h : contentMember (misreading yajl fun _ => 0) m = contentMember (misreading yajl fun _ => 1) m) :
    YajlType.string.holds m.2 = true ∨ YajlType.number.holds m.2 = true := by
  rcases m with ⟨k, v⟩
  cases v with
  | str s => exact .inl rfl
  | num x => exact .inr rfl
  | null | bool | arr | obj =>
    rw [contentMember, contentMember, List.append_cancel_left_eq] at h
    change CString.ofInt (0 : Int64).toInt = CString.ofInt (1 : Int64).toInt at h
    exact absurd h (by decide)

theorem holds_of_contentTail
    (h : contentTail (misreading yajl fun _ => 0) members
      = contentTail (misreading yajl fun _ => 1) members) :
    ∀ m ∈ members, YajlType.string.holds m.2 = true ∨ YajlType.number.holds m.2 = true := by
  induction members with
  | nil => simp
  | cons m members ih =>
    rw [contentTail, contentTail, List.cons.injEq] at h
    rcases List.append_inj h.2 (length_contentMember m) with ⟨hm, hmembers⟩
    rw [List.forall_mem_cons]
    exact ⟨holds_of_contentMember hm, ih hmembers⟩

theorem holds_of_contentText
    (h : contentText (misreading yajl fun _ => 0) members
      = contentText (misreading yajl fun _ => 1) members) :
    ∀ m ∈ members, YajlType.string.holds m.2 = true ∨ YajlType.number.holds m.2 = true := by
  cases members with
  | nil => simp
  | cons m members =>
    rw [contentText, contentText, List.cons.injEq] at h
    rcases List.append_inj h.2 (length_contentMember m) with ⟨hm, hmembers⟩
    rw [List.forall_mem_cons]
    exact ⟨holds_of_contentMember hm, holds_of_contentTail hmembers⟩

end content

section transid

theorem getTransid_ok (h : IngestibleNode yajl node) :
    ∃ t, ∀ misread uninit, getTransid (misreading yajl misread) node uninit = .ok t := by
  rcases h.transid with ⟨name, id, rest, hget⟩
  refine ⟨⟨CString.cstr name, (yajl.getInteger (.num id)).toUInt64⟩, ?_⟩
  intro misread uninit
  simp only [getTransid, misreading, hget]
  rfl

theorem transid_of_getTransid (hyajl : Typed yajl) {t : TransactionId}
    (h : ∀ misread id,
      getTransid (misreading yajl misread) node { name := [], id := id } = .ok t) :
    ∃ name id rest,
      yajl.treeGet node ["transid".toList] .array = some (.arr (.str name :: .num id :: rest)) := by
  cases hget : yajl.treeGet node ["transid".toList] .array with
  | none =>
    -- `id_` is left unset
    have hid : ∀ id, getTransid (misreading yajl fun _ => 0) node { name := [], id := id }
        = .ok { name := [], id := id } := by
      intro id
      simp only [getTransid, misreading, hget]
    have hzero := (hid 0).symm.trans (h _ 0)
    have hone := (hid 1).symm.trans (h _ 1)
    cases hzero.trans hone.symm
  | some v =>
    cases v with
    | arr values =>
      have hmisread : ∀ misread, getTransid (misreading yajl misread) node { name := [], id := 0 }
          = .ok t := fun misread => h misread 0
      simp only [getTransid, misreading, hget] at hmisread
      cases values with
      | nil => cases hmisread fun _ => 0
      | cons name values =>
        cases values with
        | nil =>
          have hname := hmisread fun _ => 0
          cases name <;> cases hname
        | cons id rest =>
          have hzero := hmisread fun _ => 0
          have hone := hmisread fun _ => 1
          cases name with
          | str name =>
            cases id with
            | num id => exact ⟨name, id, rest, rfl⟩
            | null | bool | str | arr | obj => cases hzero.trans hone.symm
          | null | bool | num | arr | obj => cases hzero
    | null | bool | num | str | obj => cases hyajl _ _ _ _ hget

end transid

section sound

theorem ok_bind {x : Except ε α} {f : α → Except ε β} (hx : ∃ a, x = .ok a)
    (hf : ∀ a, ∃ b, f a = .ok b) :
    ∃ b, x >>= f = .ok b := by
  rcases hx with ⟨a, rfl⟩
  exact hf a

theorem getAction_ok (hyajl : Typed yajl) (action : Action) :
    ∃ a, getAction yajl node action = .ok a := by
  unfold getAction
  apply ok_bind (getStringAt_ok hyajl _ _)
  intro path
  apply ok_bind (getStringAt_ok hyajl _ _)
  intro name
  apply ok_bind (getStringAt_ok hyajl _ _)
  intro version
  exact ⟨_, rfl⟩

theorem getUser_ok (hyajl : Typed yajl) (user : User) : ∃ u, getUser yajl node user = .ok u := by
  unfold getUser
  apply ok_bind (getStringAt_ok hyajl _ _)
  intro subject
  apply ok_bind (getStringAt_ok hyajl _ _)
  intro authkey
  apply ok_bind (getStringAt_ok hyajl _ _)
  intro name
  apply ok_bind (getStringAt_ok hyajl _ _)
  intro uuid
  exact ⟨_, rfl⟩

theorem getInstanceId_ok (hyajl : Typed yajl) :
    ∃ name, ∀ misread instance_, ∃ i,
      getInstanceId (misreading yajl misread) node { instance_, name := [] }
        = .ok { instance_ := i, name } := by
  rcases @getStringAt_ok yajl node hyajl ["rootControllerIndex".toList, "name".toList] [] with
    ⟨name, hname⟩
  refine ⟨name, ?_⟩
  intro misread instance_
  unfold getInstanceId
  rw [getStringAt_misreading, hname]
  exact ⟨_, rfl⟩

-- `instance_` and `blocking_` may hold anything, they are copied and never used.
theorem ofNode_ok (hyajl : Typed yajl) (h : IngestibleNode yajl node) :
    ∃ (fuel : Nat) (am : ActivationMessage), 32 ≤ am.activationId.length
      ∧ ∀ misread uninit, ∃ instance_,
        ActivationMessage.ofNode (misreading yajl misread) fuel (.new uninit) node
          = .ok {
              am with
              rootControllerIndex := { am.rootControllerIndex with instance_ }
              blocking := uninit.blocking
            } := by
  rcases h.activationId with ⟨s, hget, hlength⟩
  have hid : getStringAt yajl node ["activationId".toList] [] = .ok (CString.cstr s) := by
    rw [getStringAt, hget]
    rfl
  rcases getContent_ok hyajl h with ⟨fuel, content, hcontent⟩
  have hrevision : ∃ revision, getStringAt yajl node ["revision".toList] [] = .ok revision :=
    getStringAt_ok hyajl _ _
  have haction : ∃ action, getAction yajl node { path := [], name := [], version := [] } = .ok action :=
    getAction_ok hyajl _
  have huser : ∃ user, getUser yajl node
      { subject := [], authkey := [], namespace_ := { name := [], uuid := [] } } = .ok user :=
    getUser_ok hyajl _
  rcases hrevision with ⟨revision, hrevision⟩
  rcases getTransid_ok h with ⟨transid, htransid⟩
  rcases haction with ⟨action, haction⟩
  rcases huser with ⟨user, huser⟩
  rcases getInstanceId_ok hyajl with ⟨name, hname⟩
  refine ⟨fuel, {
    transid, revision, content, action, user
    activationId := CString.cstr s
    rootControllerIndex := { instance_ := 0, name }
    blocking := false
  }, hlength, ?_⟩
  intro misread uninit
  rcases hname misread uninit.rootControllerIndex.instance_ with ⟨i, hi⟩
  have haction' : getAction (misreading yajl misread) node { path := [], name := [], version := [] }
      = .ok action := haction
  have huser' : getUser (misreading yajl misread) node
      { subject := [], authkey := [], namespace_ := { name := [], uuid := [] } } = .ok user := huser
  refine ⟨i, ?_⟩
  unfold ActivationMessage.ofNode ActivationMessage.new
  rw [getStringAt_misreading, hid, hcontent, getStringAt_misreading, hrevision, htransid, haction', hi,
    huser']
  rfl

theorem soundButUnused_of_ingestible (hyajl : Typed yajl) (h : Ingestible yajl json) :
    SoundButUnused hash env uninit yajl json := by
  rcases h with ⟨hsize, node, hparse, hnode⟩
  rcases ofNode_ok hyajl hnode with ⟨fuel, am, hlength, ham⟩
  refine ⟨fuel, (readLater hash env uninit (fun _ => 'a') am).used, ?_, mem_copyActivationId _ _⟩
  intro g
  rcases ham g.misread g.uninit with ⟨i, hi⟩
  have hparse' : (misreading yajl g.misread).treeParse (CString.cstr json) = some node := hparse
  have hjson : ActivationMessage.ofJson (misreading yajl g.misread) fuel g.uninit json
      = .ok {
          am with
          rootControllerIndex := { am.rootControllerIndex with instance_ := i }
          blocking := g.uninit.blocking
        } := by
    rw [ActivationMessage.ofJson_eq_ok_iff, ActivationMessage.ofText, hparse']
    exact ⟨hsize, hi⟩
  rw [ingest, hjson]
  have hcopy := copyActivationId_iff.mpr hlength g.beyond fun _ => 'a'
  simp only [readLater, requestStats, ← hcopy]
  rfl

end sound

section complete

variable {hash env uninit} {fuel : Nat} {out : Ingested}

-- The message that is made, whatever comes after its `activationId_`.
theorem message_of_sound
    (h : ∀ g, (ingest hash env uninit yajl fuel g json).map Ingested.used = .ok out)
    (misread : Json.Tree → Int64) (m : ActivationMessage) :
    ∃ am, ActivationMessage.ofJson (misreading yajl misread) fuel m json = .ok am
      ∧ ∀ beyond, (readLater hash env uninit beyond am).used = out := by
  have hout := h ⟨m, misread, fun _ => 'a'⟩
  unfold ingest at h hout
  cases ham : ActivationMessage.ofJson (misreading yajl misread) fuel m json with
  | error fault =>
    rw [ham] at hout
    cases hout
  | ok am =>
    refine ⟨am, rfl, ?_⟩
    intro beyond
    have hout := h ⟨m, misread, beyond⟩
    rw [ham] at hout
    exact Except.ok.inj hout

theorem length_of_readLater {am : ActivationMessage}
    (h : ∀ beyond, (readLater hash env uninit beyond am).used = out) :
    32 ≤ am.activationId.length := by
  apply copyActivationId_iff.mp
  intro beyond beyond'
  exact congrArg (·.stats.activationId) ((h beyond).trans (h beyond').symm)

theorem ingestible_of_soundButUnused (hyajl : Typed yajl)
    (h : SoundButUnused hash env uninit yajl json) :
    Ingestible yajl json := by
  rcases h with ⟨fuel, out, h, _⟩
  have hmessage : ∀ misread m, ∃ am,
      json.length ≤ errbufSize
        ∧ ActivationMessage.ofText (misreading yajl misread) fuel m json = .ok am
        ∧ ∀ beyond, (readLater hash env uninit beyond am).used = out := by
    intro misread m
    rcases message_of_sound h misread m with ⟨am, ham, hread⟩
    rcases ActivationMessage.ofJson_eq_ok_iff.mp ham with ⟨hsize, ham⟩
    exact ⟨am, hsize, ham, hread⟩
  rcases hmessage (fun _ => 0) (testActivation [] []) with ⟨_, hsize, _, _⟩
  refine ⟨hsize, ?_⟩
  cases hparse : yajl.treeParse (CString.cstr json) with
  | none =>
    -- the empty message is scheduled all the same
    rcases hmessage (fun _ => 0) (testActivation [] []) with ⟨am, _, ham, hread⟩
    have hparse' : (misreading yajl fun _ => 0).treeParse (CString.cstr json) = none := hparse
    rw [ActivationMessage.ofText, hparse'] at ham
    cases ham
    exact absurd (length_of_readLater hread) (by decide)
  | some node =>
    have hnode : ∀ misread m, ∃ am,
        ActivationMessage.ofNode (misreading yajl misread) fuel (.new m) node = .ok am
          ∧ ∀ beyond, (readLater hash env uninit beyond am).used = out := by
      intro misread m
      have hparse' : (misreading yajl misread).treeParse (CString.cstr json) = some node := hparse
      rcases hmessage misread m with ⟨am, _, ham, hread⟩
      rw [ActivationMessage.ofText, hparse'] at ham
      exact ⟨am, ham, hread⟩
    refine ⟨node, rfl, ?_, ?_, ?_⟩
    . rcases hnode (fun _ => 0) (testActivation [] []) with ⟨am, ham, hread⟩
      have hlength := length_of_readLater hread
      have hid := (ActivationMessage.takenFrom_of_ofNode ham).activationId
      rw [getStringAt_misreading] at hid
      rcases @getStringAt_cases yajl node hyajl ["activationId".toList] [] with
        ⟨_, hnone⟩ | ⟨s, hget, hs⟩
      . have hempty : am.activationId = [] := Except.ok.inj (hid.symm.trans hnone)
        rw [hempty] at hlength
        cases hlength
      . have hstring : am.activationId = CString.cstr s := Except.ok.inj (hid.symm.trans hs)
        rw [hstring] at hlength
        exact ⟨s, hget, hlength⟩
    . apply transid_of_getTransid hyajl
      intro misread id
      rcases hnode misread { testActivation [] [] with transid := { name := [], id := id } } with
        ⟨am, ham, hread⟩
      have htransid := (ActivationMessage.takenFrom_of_ofNode ham).transid
      have hout : am.transid = out.completion.transid :=
        congrArg (·.completion.transid) (hread fun _ => 'a')
      rw [hout] at htransid
      exact htransid
    . intro members hget
      have hargs : ∀ misread, members.length < 65536
          ∧ out.args = contentText (misreading yajl misread) members := by
        intro misread
        rcases hnode misread (testActivation [] []) with ⟨am, ham, hread⟩
        have hcontent := (ActivationMessage.takenFrom_of_ofNode ham).content
        have hout : am.content = out.args := congrArg (·.args) (hread fun _ => 'a')
        rw [hout] at hcontent
        exact (getContent_iff (misreading yajl misread) hget).mp ⟨fuel, hcontent⟩
      have hlength := (hargs fun _ => 0).1
      refine ⟨by omega, ?_⟩
      apply holds_of_contentText
      rw [← (hargs fun _ => 0).2, ← (hargs fun _ => 1).2]

-- The record is a copy of all of the message, of `blocking_` too, which nothing sets.
theorem not_sound_of_blocking (hash : CString → UInt64) (env : ScheduleEnv) (uninit : CompletionMessage)
    (yajl : Yajl) (json : CString) :
    ¬ Sound hash env uninit yajl json := by
  rintro ⟨fuel, out, h, _⟩
  have hblocking : ∀ m : ActivationMessage, out.record.blocking = m.blocking := by
    intro m
    rcases ok_of_bind (h ⟨m, fun _ => 0, fun _ => 'a'⟩) with ⟨am, ham, hout⟩
    have hrecord : am = out.record := congrArg (·.record) (Except.ok.inj hout)
    rw [← hrecord]
    exact blocking_of_ofJson ham
  have htrue := hblocking { testActivation [] [] with blocking := true }
  cases htrue.symm.trans (hblocking { testActivation [] [] with blocking := false })

/--
The way from Kafka to the request is never sound, since `blocking_` is copied unset. But for the values
of `blocking_` and `instance_`, it is sound just for a payload that `errbuf` is long enough for, that is
parsed, whose `activationId` is a string of at least 32 characters, whose `transid` is an array that
starts with a string and a number, and whose content, where it has one, has at most 65535 members, all of
them strings or numbers.
-/
theorem not_sound (hash : CString → UInt64) (env : ScheduleEnv) (uninit : CompletionMessage)
    (hyajl : Typed yajl) :
    ¬ Sound hash env uninit yajl json
      ∧ (SoundButUnused hash env uninit yajl json ↔ Ingestible yajl json) :=
  ⟨not_sound_of_blocking hash env uninit yajl json,
    ingestible_of_soundButUnused hyajl, soundButUnused_of_ingestible hash env uninit hyajl⟩

end complete

section example_

def exampleEnv : ScheduleEnv where
  getAction _ := "code".toList
  now := 0
  beyond _ := 'a'

def exampleCompletion : CompletionMessage :=
  .ofActivation {
    transid := { name := [], id := 0 }
    response := { statusCode := 0 }
    invoker := { instance_ := 0, name := [] }
  } (testActivation [] [])

theorem pathYajl_typed : Typed pathYajl := by
  intro node path t v h
  exact (Option.filter_eq_some_iff.mp h).2

-- `{"transid":["t",7],"activationId":"aaaaaaaaaaaaaaaaaaaaaaaaaaaaaaaa"}`
def exactPayload : CString :=
  Json.objectText [
    ("transid".toList, Json.arrayText [Json.quoted ['t'], CString.ofNat 7]),
    ("activationId".toList, Json.quoted (List.replicate 32 'a'))
  ]

def exactTree : Json.Tree :=
  .obj [
    ("transid".toList, .arr [.str ['t'], .num (CString.ofNat 7)]),
    ("activationId".toList, .str (List.replicate 32 'a'))
  ]

theorem parse_exactPayload : Json.parse exactPayload = some exactTree := by
  apply Json.Writes.parse
  apply Json.writes_objectText
  have htransid : Json.Writes (.arr [.str ['t'], .num (CString.ofNat 7)])
      (Json.arrayText [Json.quoted ['t'], CString.ofNat 7]) := by
    apply Json.writes_arrayText
    exact .cons (Json.writes_quoted (List.all_eq_true.mp rfl)) (.cons (writes_ofNat 7) .nil)
  refine .cons (Json.writesMember rfl htransid) (.cons (Json.writesMember rfl ?_) .nil)
  exact Json.writes_quoted (List.all_eq_true.mp rfl)

theorem not_sound_exactPayload :
    ¬ Sound (fun _ => 0) exampleEnv exampleCompletion pathYajl exactPayload
      ∧ SoundButUnused (fun _ => 0) exampleEnv exampleCompletion pathYajl exactPayload := by
  rcases not_sound (fun _ => 0) exampleEnv exampleCompletion pathYajl_typed with ⟨hsound, hiff⟩
  refine ⟨hsound, hiff.mpr ⟨by decide, exactTree, ?_, ?_⟩⟩
  . rw [cstr_of_parse parse_exactPayload]
    exact pathYajl_finds.treeParse _ _ parse_exactPayload
  . refine ⟨⟨List.replicate 32 'a', rfl, by decide⟩, ⟨['t'], CString.ofNat 7, [], rfl⟩, ?_⟩
    intro members h
    cases h

-- `{"transid":[]}`
def emptyTransid : CString :=
  Json.objectText [("transid".toList, Json.arrayText [])]

theorem parse_emptyTransid : Json.parse emptyTransid = some (.obj [("transid".toList, .arr [])]) := by
  apply Json.Writes.parse
  apply Json.writes_objectText
  exact .cons (Json.writesMember rfl (Json.writes_arrayText .nil)) .nil

-- It is not only `blocking_`: the elements of the array are not there.
theorem emptyTransid_not_sound :
    emptyTransid = "\x7b\"transid\":[]\x7d".toList
      ∧ ¬ Sound (fun _ => 0) exampleEnv exampleCompletion pathYajl emptyTransid
      ∧ ¬ SoundButUnused (fun _ => 0) exampleEnv exampleCompletion pathYajl emptyTransid := by
  refine ⟨by decide, not_sound_of_blocking _ _ _ _ _, ?_⟩
  intro h
  rcases ingestible_of_soundButUnused pathYajl_typed h with ⟨_, node, hparse, hnode⟩
  rw [cstr_of_parse parse_emptyTransid] at hparse
  cases (pathYajl_finds.treeParse _ _ parse_emptyTransid).symm.trans hparse
  rcases hnode.transid with ⟨name, id, rest, hget⟩
  cases hget

end example_

end Controller
end Seuss
