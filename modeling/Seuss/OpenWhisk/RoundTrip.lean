import Seuss.OpenWhisk.Encoding

/-!
This module contains what `ActivationMessage(json)` makes of a message that `ActivationMessage::to_json`
has written.
-/

namespace Seuss
namespace Msg

open Json (quoted objectText Writes Plain)

section tree

def Action.tree (a : Action) : Json.Tree :=
  .obj [
    ("path".toList, .str a.path),
    ("name".toList, .str a.name),
    ("version".toList, .str a.version)
  ]

def Namespace.tree (n : Namespace) : Json.Tree :=
  .obj [("name".toList, .str n.name), ("uuid".toList, .str n.uuid)]

def User.tree (u : User) : Json.Tree :=
  .obj [
    ("subject".toList, .str u.subject),
    ("authkey".toList, .str u.authkey),
    ("namespace".toList, u.namespace_.tree)
  ]

def ActivationMessage.tree (m : ActivationMessage) (members : List (CString × Json.Tree)) : Json.Tree :=
  .obj [
    ("rootControllerIndex".toList, m.rootControllerIndex.tree),
    ("activationId".toList, .str m.activationId),
    ("revision".toList, .str m.revision),
    ("transid".toList, m.transid.tree),
    ("action".toList, m.action.tree),
    ("content".toList, .obj members),
    ("blocking".toList, .num (boolText m.blocking)),
    ("user".toList, m.user.tree)
  ]

structure Action.IsPlain (a : Action) : Prop where
  path : Plain a.path
  name : Plain a.name
  version : Plain a.version

structure User.IsPlain (u : User) : Prop where
  subject : Plain u.subject
  authkey : Plain u.authkey
  name : Plain u.namespace_.name
  uuid : Plain u.namespace_.uuid

-- a string without escapes or an integer of 64 bits
inductive IsArgument : Json.Tree → Prop where
  | str (s : CString) (h : Plain s) : IsArgument (.str s)
  | integer (n : Int64) : IsArgument (.num (CString.ofInt n.toInt))

structure IsContent (members : List (CString × Json.Tree)) : Prop where
  names : ∀ m ∈ members, Plain m.1
  values : ∀ m ∈ members, IsArgument m.2

/--
A message whose strings need no escapes, whose `id_` is an integer of 64 bits and whose `content_` is what
the constructor writes for `members`.
-/
structure Encodable (yajl : Yajl) (m : ActivationMessage) (members : List (CString × Json.Tree)) :
    Prop where
  activationId : Plain m.activationId
  revision : Plain m.revision
  transid : Plain m.transid.name
  rootControllerIndex : Plain m.rootControllerIndex.name
  action : m.action.IsPlain
  user : m.user.IsPlain
  id : m.transid.id.toNat < 2 ^ 63
  isContent : IsContent members
  content : m.content = contentText yajl members

theorem Action.writes {a : Action} (h : a.IsPlain) : Writes a.tree a.toJson := by
  rw [toJson_eq]
  apply Json.writes_objectText
  refine .cons (Json.writesMember rfl (Json.writes_quoted h.path)) ?_
  refine .cons (Json.writesMember rfl (Json.writes_quoted h.name)) ?_
  exact .cons (Json.writesMember rfl (Json.writes_quoted h.version)) .nil

theorem User.writes {u : User} (h : u.IsPlain) : Writes u.tree u.toJson := by
  have hnamespace : Writes u.namespace_.tree u.namespace_.toJson := by
    rw [Namespace.toJson_eq]
    apply Json.writes_objectText
    refine .cons (Json.writesMember rfl (Json.writes_quoted h.name)) ?_
    exact .cons (Json.writesMember rfl (Json.writes_quoted h.uuid)) .nil
  rw [toJson_eq]
  apply Json.writes_objectText
  refine .cons (Json.writesMember rfl (Json.writes_quoted h.subject)) ?_
  refine .cons (Json.writesMember rfl (Json.writes_quoted h.authkey)) ?_
  exact .cons (Json.writesMember rfl hnamespace) .nil

variable {yajl : Yajl} {members : List (CString × Json.Tree)} {m : ActivationMessage}

def argumentText (yajl : Yajl) (m : CString × Json.Tree) : CString × CString :=
  (m.1, contentValue yajl m.2)

theorem contentMember_eq {p : CString × Json.Tree} (h : Plain p.1) :
    contentMember yajl p = Json.memberText (argumentText yajl p) := by
  simp [contentMember, Json.memberText, quoted, argumentText, cstr_of_plain h]

theorem contentTail_eq (h : ∀ p ∈ members, Plain p.1) :
    contentTail yajl members = Json.membersText (members.map (argumentText yajl)) := by
  induction members with
  | nil => rfl
  | cons p members ih =>
    rw [List.forall_mem_cons] at h
    rw [contentTail, List.map_cons, Json.membersText, contentMember_eq h.1, ih h.2]

theorem contentText_eq (h : ∀ p ∈ members, Plain p.1) :
    contentText yajl members = objectText (members.map (argumentText yajl)) := by
  cases members with
  | nil => rfl
  | cons p members =>
    rw [List.forall_mem_cons] at h
    rw [contentText, List.map_cons, objectText, contentMember_eq h.1, contentTail_eq h.2]

theorem IsArgument.writes (hyajl : yajl.Finds) {v : Json.Tree} (h : IsArgument v) :
    Writes v (contentValue yajl v) := by
  cases h with
  | str s h =>
    have hquoted : contentValue yajl (.str s) = quoted s := by
      simp [contentValue, quoted, cstr_of_plain h]
    rw [hquoted]
    exact Json.writes_quoted h
  | integer n =>
    have hinteger : contentValue yajl (.num (CString.ofInt n.toInt))
        = CString.ofInt (yajl.getInteger (.num (CString.ofInt n.toInt))).toInt := rfl
    rw [hinteger, hyajl.getInteger]
    exact writes_ofInt _

theorem IsContent.writes (hyajl : yajl.Finds) (h : IsContent members) :
    Writes (.obj members) (contentText yajl members) := by
  rw [contentText_eq h.names]
  apply Json.writes_objectText
  rw [List.forall₂_map_right_iff, List.forall₂_same]
  intro p hp
  exact ⟨rfl, h.names p hp, (h.values p hp).writes hyajl⟩

theorem Encodable.writes (hyajl : yajl.Finds) (h : Encodable yajl m members) :
    Writes (m.tree members) m.toJson := by
  have hcontent := h.isContent.writes hyajl
  rw [← h.content] at hcontent
  rw [ActivationMessage.toJson_eq]
  apply Json.writes_objectText
  refine .cons (Json.writesMember rfl (InstanceId.writes h.rootControllerIndex)) ?_
  refine .cons (Json.writesMember rfl (Json.writes_quoted h.activationId)) ?_
  refine .cons (Json.writesMember rfl (Json.writes_quoted h.revision)) ?_
  refine .cons (Json.writesMember rfl (TransactionId.writes h.transid)) ?_
  refine .cons (Json.writesMember rfl (Action.writes h.action)) ?_
  refine .cons (Json.writesMember rfl hcontent) ?_
  refine .cons (Json.writesMember rfl (writes_ofNat _)) ?_
  exact .cons (Json.writesMember rfl (User.writes h.user)) .nil

end tree

section decode

variable {yajl : Yajl} {members : List (CString × Json.Tree)} {m : ActivationMessage}
  {node : Json.Tree} {path : List CString} {s x : CString}

theorem getStringAt_of_find (hyajl : yajl.Finds) (hfind : findNode node path = some (.str x))
    (hx : Plain x) :
    getStringAt yajl node path s = .ok x := by
  have hget : yajl.treeGet node path .string = some (.str x) := by
    rw [hyajl.treeGet, hfind]
    rfl
  rw [getStringAt, hget]
  exact congrArg Except.ok (cstr_of_plain hx)

theorem getStringAt_of_none (hyajl : yajl.Finds) (hfind : findNode node path = none) :
    getStringAt yajl node path s = .ok s := by
  have hget : yajl.treeGet node path .string = none := by
    rw [hyajl.treeGet, hfind]
    rfl
  rw [getStringAt, hget]

theorem toInt_toInt64 {n : UInt64} (h : n.toNat < 2 ^ 63) : n.toInt64.toInt = n.toNat := by
  have hlt : 2 * n.toBitVec.toNat < 2 ^ 64 := by
    rw [UInt64.toNat_toBitVec]
    omega
  exact BitVec.toInt_eq_toNat_of_lt hlt

theorem getTransid_tree (hyajl : yajl.Finds) (h : Encodable yajl m members) (t : TransactionId) :
    getTransid yajl (m.tree members) t = .ok m.transid := by
  have hget : yajl.treeGet (m.tree members) ["transid".toList] .array = some m.transid.tree := by
    rw [hyajl.treeGet]
    rfl
  have hid : yajl.getInteger (.num (CString.ofNat m.transid.id.toNat)) = m.transid.id.toInt64 := by
    rw [← hyajl.getInteger m.transid.id.toInt64, toInt_toInt64 h.id]
    rfl
  rw [getTransid, hget]
  simp only [TransactionId.tree, List.getElem?_cons_zero, List.getElem?_cons_succ, getString,
    cstr_of_plain h.transid, hid]
  rfl

theorem getInstanceId_tree (hyajl : yajl.Finds) (h : Encodable yajl m members)
    (i : InstanceId) (hi : i.name = []) :
    getInstanceId yajl (m.tree members) i = .ok m.rootControllerIndex := by
  have hget : yajl.treeGet (m.tree members) ["rootControllerIndex".toList, "instance".toList] .number
      = some (.num (CString.ofInt m.rootControllerIndex.instance_.toInt)) := by
    rw [hyajl.treeGet]
    rfl
  have hname : getStringAt yajl (m.tree members) ["rootControllerIndex".toList, "name".toList] i.name
      = .ok m.rootControllerIndex.name := by
    rcases hroot : m.rootControllerIndex with ⟨instance_, name⟩
    have hplain := h.rootControllerIndex
    rw [hroot] at hplain
    cases name with
    | nil =>
      rw [hi]
      apply getStringAt_of_none hyajl
      simp only [ActivationMessage.tree, hroot]
      rfl
    | cons c name =>
      apply getStringAt_of_find hyajl _ hplain
      simp only [ActivationMessage.tree, hroot]
      rfl
  simp only [getInstanceId, hget, hname, hyajl.getInteger]
  rfl

theorem getAction_tree (hyajl : yajl.Finds) (h : m.action.IsPlain) (a : Action) :
    getAction yajl (m.tree members) a = .ok m.action := by
  unfold getAction
  rw [getStringAt_of_find hyajl rfl h.path, getStringAt_of_find hyajl rfl h.name,
    getStringAt_of_find hyajl rfl h.version]
  rfl

theorem getUser_tree (hyajl : yajl.Finds) (h : m.user.IsPlain) (u : User) :
    getUser yajl (m.tree members) u = .ok m.user := by
  unfold getUser
  rw [getStringAt_of_find hyajl rfl h.subject, getStringAt_of_find hyajl rfl h.authkey,
    getStringAt_of_find hyajl rfl h.name, getStringAt_of_find hyajl rfl h.uuid]
  rfl

theorem ofNode_tree (hyajl : yajl.Finds) (h : Encodable yajl m members)
    (hlength : members.length ≤ 65535) (uninit : ActivationMessage) :
    ∃ fuel, ActivationMessage.ofNode yajl fuel (.new uninit) (m.tree members)
      = .ok { m with blocking := uninit.blocking } := by
  have hget : yajl.treeGet (m.tree members) ["content".toList] .object = some (.obj members) := by
    rw [hyajl.treeGet]
    rfl
  rcases (getContent_iff yajl hget).mpr ⟨by omega, h.content⟩ with ⟨fuel, hcontent⟩
  refine ⟨fuel, ?_⟩
  unfold ActivationMessage.ofNode
  rw [getStringAt_of_find hyajl rfl h.activationId, hcontent,
    getStringAt_of_find hyajl rfl h.revision, getTransid_tree hyajl h, getAction_tree hyajl h.action,
    getInstanceId_tree hyajl h _ rfl, getUser_tree hyajl h.user]
  rfl

-- `blocking` is written and never read.
theorem blocking_of_ofJson {fuel : Nat} {uninit : ActivationMessage} {json : CString}
    (h : ActivationMessage.ofJson yajl fuel uninit json = .ok m) :
    m.blocking = uninit.blocking := by
  replace h := (ActivationMessage.ofJson_eq_ok_iff.mp h).2
  unfold ActivationMessage.ofText at h
  split at h
  . cases h
    rfl
  . exact (ActivationMessage.takenFrom_of_ofNode h).blocking

theorem length_le_contentTail (yajl : Yajl) (members : List (CString × Json.Tree)) :
    members.length ≤ (contentTail yajl members).length := by
  induction members with
  | nil => exact Nat.zero_le _
  | cons p members ih =>
    simp only [contentTail, List.length_cons, List.length_append]
    omega

theorem Encodable.length_le (h : Encodable yajl m members) : members.length ≤ m.toJson.length := by
  have hcontent : members.length ≤ m.content.length := by
    rw [h.content]
    cases members with
    | nil => exact Nat.zero_le _
    | cons p members =>
      have htail := length_le_contentTail yajl members
      simp only [contentText, List.length_cons, List.length_append]
      omega
  have hsublist : m.content.Sublist m.toJson := by
    unfold ActivationMessage.toJson
    iterate 5 refine List.Sublist.trans ?_ (List.sublist_append_left _ _)
    exact List.sublist_append_right _ _
  exact hcontent.trans hsublist.length_le

-- What is short enough for `errbuf` has less members than the loop can number.
theorem ofJson_toJson (hyajl : yajl.Finds) (h : Encodable yajl m members)
    (hlength : m.toJson.length ≤ errbufSize) (uninit : ActivationMessage) :
    ∃ fuel, ActivationMessage.ofJson yajl fuel uninit m.toJson
      = .ok { m with blocking := uninit.blocking } := by
  have hparse := (h.writes hyajl).parse
  have hle := h.length_le
  unfold errbufSize at hlength
  rcases ofNode_tree hyajl h (by omega) uninit with ⟨fuel, hnode⟩
  refine ⟨fuel, ActivationMessage.ofJson_eq_ok_iff.mpr ⟨hlength, ?_⟩⟩
  unfold ActivationMessage.ofText
  rw [cstr_of_parse hparse, hyajl.treeParse _ _ hparse]
  exact hnode

/--
What is written is valid and is read back as `m`, wherever the message that is made of it lies.
-/
def Decodes (yajl : Yajl) (m : ActivationMessage) : Prop :=
  (Json.parse m.toJson).isSome
    ∧ ∀ uninit, ∃ fuel, ActivationMessage.ofJson yajl fuel uninit m.toJson = .ok m

-- Every field but `blocking_` is read back.
def DecodesButBlocking (yajl : Yajl) (m : ActivationMessage) : Prop :=
  ∀ uninit, ∃ fuel, ActivationMessage.ofJson yajl fuel uninit m.toJson
    = .ok { m with blocking := uninit.blocking }

theorem not_decodes_of_blocking (yajl : Yajl) (m : ActivationMessage) : ¬ Decodes yajl m := by
  rintro ⟨_, h⟩
  rcases h { m with blocking := !m.blocking } with ⟨fuel, hm⟩
  have hblocking := blocking_of_ofJson hm
  cases hb : m.blocking <;> rw [hb] at hblocking <;> cases hblocking

theorem decodesButBlocking_iff (hyajl : yajl.Finds) (h : Encodable yajl m members) :
    DecodesButBlocking yajl m ↔ m.toJson.length ≤ errbufSize := by
  constructor
  . intro h
    rcases h m with ⟨fuel, hm⟩
    exact (ActivationMessage.ofJson_eq_ok_iff.mp hm).1
  . exact ofJson_toJson hyajl h

/--
What `to_json` writes is valid. It is never read back as the message that it was written for, since the
constructor leaves `blocking_` alone; everything else of it is read back just if `errbuf` is as long as
the text.
-/
theorem not_decodes (hyajl : yajl.Finds) (h : Encodable yajl m members) :
    (Json.parse m.toJson).isSome
      ∧ ¬ Decodes yajl m
      ∧ (DecodesButBlocking yajl m ↔ m.toJson.length ≤ errbufSize) := by
  have hparse := (h.writes hyajl).parse
  refine ⟨?_, not_decodes_of_blocking yajl m, decodesButBlocking_iff hyajl h⟩
  rw [hparse]
  rfl

end decode

section example_

def blockingActivation : ActivationMessage where
  transid := { name := "tid".toList, id := 1532474133193 }
  rootControllerIndex := { instance_ := 0, name := "controller".toList }
  activationId := "20f9fcfd0c3a4348b9fcfd0c3aa348c7".toList
  revision := "1-a".toList
  content := "\x7b\"spin\":\"27\",\"n\":-7\x7d".toList
  action := { path := "guest".toList, name := "spin".toList, version := "0.0.1".toList }
  user := {
    subject := "guest".toList
    authkey := "key".toList
    namespace_ := { name := "guest".toList, uuid := "uuid".toList }
  }
  blocking := true

def blockingMembers : List (CString × Json.Tree) :=
  [("spin".toList, .str "27".toList), ("n".toList, .num (CString.ofInt (-7 : Int64).toInt))]

theorem blockingActivation_encodable : Encodable pathYajl blockingActivation blockingMembers where
  activationId := List.all_eq_true.mp rfl
  revision := List.all_eq_true.mp rfl
  transid := List.all_eq_true.mp rfl
  rootControllerIndex := List.all_eq_true.mp rfl
  action := ⟨List.all_eq_true.mp rfl, List.all_eq_true.mp rfl, List.all_eq_true.mp rfl⟩
  user := ⟨List.all_eq_true.mp rfl, List.all_eq_true.mp rfl, List.all_eq_true.mp rfl,
    List.all_eq_true.mp rfl⟩
  id := by decide
  isContent := by
    constructor
    . rw [blockingMembers, List.forall_mem_cons, List.forall_mem_singleton]
      exact ⟨List.all_eq_true.mp rfl, List.all_eq_true.mp rfl⟩
    . rw [blockingMembers, List.forall_mem_cons, List.forall_mem_singleton]
      exact ⟨.str _ (List.all_eq_true.mp rfl), .integer _⟩
  content := by decide

theorem not_decodes_blocking :
    (Json.parse blockingActivation.toJson).isSome
      ∧ ¬ Decodes pathYajl blockingActivation
      ∧ DecodesButBlocking pathYajl blockingActivation := by
  rcases not_decodes pathYajl_finds blockingActivation_encodable with ⟨hvalid, hblocking, hiff⟩
  exact ⟨hvalid, hblocking, hiff.mpr (by decide +kernel)⟩

-- The object that is constructed happens to lie where `blocking_` is false.
theorem blockingActivation_not_decoded :
    Encodable pathYajl blockingActivation blockingMembers
      ∧ ¬ ∃ fuel, ActivationMessage.ofJson pathYajl fuel (testActivation [] []) blockingActivation.toJson
        = .ok blockingActivation := by
  refine ⟨blockingActivation_encodable, ?_⟩
  rintro ⟨fuel, h⟩
  cases blocking_of_ofJson h

end example_

end Msg
end Seuss
