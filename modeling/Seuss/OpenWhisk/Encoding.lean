import Seuss.Json.Writing
import Seuss.OpenWhisk.Content

/-!
This module contains the texts that the messages are sent as. They are put together by hand, so what they
say depends on what is put in.
-/

namespace Seuss
namespace Msg

open Json (quoted objectText arrayText Writes Plain)

def TransactionId.toJson (t : TransactionId) : CString :=
  "[\"".toList ++ t.name ++ "\",".toList ++ CString.ofNat t.id.toNat ++ "]".toList

def InstanceId.toJson (i : InstanceId) : CString :=
  if i.name.isEmpty then
    "\x7b\"instance\":".toList ++ CString.ofInt i.instance_.toInt ++ "\x7d".toList
  else
    "\x7b\"instance\":".toList ++ CString.ofInt i.instance_.toInt ++ ",\"name\":\"".toList ++ i.name
      ++ "\"\x7d".toList

def Action.toJson (a : Action) : CString :=
  "\x7b\"path\":\"".toList ++ a.path ++ "\",\"name\":\"".toList ++ a.name ++ "\",\"version\":\"".toList
    ++ a.version ++ "\"\x7d".toList

def Namespace.toJson (n : Namespace) : CString :=
  "\x7b\"name\":\"".toList ++ n.name ++ "\",\"uuid\":\"".toList ++ n.uuid ++ "\"\x7d".toList

def User.toJson (u : User) : CString :=
  "\x7b\"subject\":\"".toList ++ u.subject ++ "\",\"authkey\":\"".toList ++ u.authkey
    ++ "\",\"namespace\":".toList ++ u.namespace_.toJson ++ "\x7d".toList

-- `std::to_string` of a `bool`
def boolText (b : Bool) : CString :=
  CString.ofNat b.toNat

def ActivationMessage.toJson (m : ActivationMessage) : CString :=
  "\x7b\"rootControllerIndex\":".toList ++ m.rootControllerIndex.toJson ++ ",\"activationId\":\"".toList
    ++ m.activationId ++ "\",\"revision\":\"".toList ++ m.revision ++ "\",\"transid\":".toList
    ++ m.transid.toJson ++ ",\"action\":".toList ++ m.action.toJson ++ ",\"content\":".toList
    ++ m.content ++ ",\"blocking\":".toList ++ boolText m.blocking ++ ",\"user\":".toList
    ++ m.user.toJson ++ "\x7d".toList

def Response.toJson (r : Response) : CString :=
  "\x7b\"duration\":".toList ++ CString.ofInt r.duration.toInt ++ ",\"name\":\"".toList ++ r.name
    ++ "\"".toList ++ ",\"subject\":\"".toList ++ r.subject ++ "\"".toList
    ++ ",\"activationId\":\"".toList ++ r.activationId ++ "\"".toList ++ ",\"publish\":".toList
    ++ r.publish ++ ",\"version\":\"".toList ++ r.version ++ "\"".toList ++ ",\"end\":".toList
    ++ CString.ofInt r.end_.toInt ++ ",\"start\":".toList ++ CString.ofInt r.start.toInt
    ++ ",\"namespace\":\"".toList ++ r.namespace_ ++ "\"".toList
    ++ ",\"response\":\x7b\"statusCode\":".toList ++ CString.ofInt r.statusCode.toInt
    ++ ",\"result\":".toList ++ r.result ++ "\x7d,\"logs\":[],\"annotations\":[".toList
    ++ r.annotations ++ "]\x7d".toList

def CompletionMessage.toJson (cm : CompletionMessage) : CString :=
  "\x7b\"transid\":".toList ++ cm.transid.toJson ++ ",\"response\":".toList ++ cm.response.toJson
    ++ ",\"invoker\":".toList ++ cm.invoker.toJson ++ "\x7d".toList

section texts

theorem TransactionId.toJson_eq (t : TransactionId) :
    t.toJson = arrayText [quoted t.name, CString.ofNat t.id.toNat] := by
  unfold toJson
  simp only [arrayText, Json.itemsText, quoted, String.reduceToList, List.append_assoc,
    List.cons_append, List.nil_append]

def InstanceId.members (i : InstanceId) : List (CString × CString) :=
  ("instance".toList, CString.ofInt i.instance_.toInt)
    :: if i.name.isEmpty then [] else [("name".toList, quoted i.name)]

theorem InstanceId.toJson_eq (i : InstanceId) : i.toJson = objectText i.members := by
  unfold toJson members
  split <;>
    simp only [objectText, Json.membersText, Json.memberText, quoted, String.reduceToList,
      List.append_assoc, List.cons_append, List.nil_append]

theorem Action.toJson_eq (a : Action) :
    a.toJson =
      objectText [
        ("path".toList, quoted a.path),
        ("name".toList, quoted a.name),
        ("version".toList, quoted a.version)
      ] := by
  unfold toJson
  simp only [objectText, Json.membersText, Json.memberText, quoted, String.reduceToList,
    List.append_assoc, List.cons_append, List.nil_append]

theorem Namespace.toJson_eq (n : Namespace) :
    n.toJson = objectText [("name".toList, quoted n.name), ("uuid".toList, quoted n.uuid)] := by
  unfold toJson
  simp only [objectText, Json.membersText, Json.memberText, quoted, String.reduceToList,
    List.append_assoc, List.cons_append, List.nil_append]

theorem User.toJson_eq (u : User) :
    u.toJson =
      objectText [
        ("subject".toList, quoted u.subject),
        ("authkey".toList, quoted u.authkey),
        ("namespace".toList, u.namespace_.toJson)
      ] := by
  unfold toJson
  simp only [objectText, Json.membersText, Json.memberText, quoted, String.reduceToList,
    List.append_assoc, List.cons_append, List.nil_append]

theorem ActivationMessage.toJson_eq (m : ActivationMessage) :
    m.toJson =
      objectText [
        ("rootControllerIndex".toList, m.rootControllerIndex.toJson),
        ("activationId".toList, quoted m.activationId),
        ("revision".toList, quoted m.revision),
        ("transid".toList, m.transid.toJson),
        ("action".toList, m.action.toJson),
        ("content".toList, m.content),
        ("blocking".toList, boolText m.blocking),
        ("user".toList, m.user.toJson)
      ] := by
  unfold toJson
  simp only [objectText, Json.membersText, Json.memberText, quoted, String.reduceToList,
    List.append_assoc, List.cons_append, List.nil_append]

set_option maxRecDepth 2000 in
theorem Response.toJson_eq (r : Response) :
    r.toJson =
      objectText [
        ("duration".toList, CString.ofInt r.duration.toInt),
        ("name".toList, quoted r.name),
        ("subject".toList, quoted r.subject),
        ("activationId".toList, quoted r.activationId),
        ("publish".toList, r.publish),
        ("version".toList, quoted r.version),
        ("end".toList, CString.ofInt r.end_.toInt),
        ("start".toList, CString.ofInt r.start.toInt),
        ("namespace".toList, quoted r.namespace_),
        ("response".toList,
          objectText [
            ("statusCode".toList, CString.ofInt r.statusCode.toInt),
            ("result".toList, r.result)
          ]),
        ("logs".toList, arrayText []),
        ("annotations".toList, '[' :: (r.annotations ++ [']']))
      ] := by
  unfold toJson
  simp only [objectText, arrayText, Json.membersText, Json.memberText, quoted, String.reduceToList,
    List.append_assoc, List.cons_append, List.nil_append]

theorem CompletionMessage.toJson_eq (cm : CompletionMessage) :
    cm.toJson =
      objectText [
        ("transid".toList, cm.transid.toJson),
        ("response".toList, cm.response.toJson),
        ("invoker".toList, cm.invoker.toJson)
      ] := by
  unfold toJson
  simp only [objectText, Json.membersText, Json.memberText, quoted, String.reduceToList,
    List.append_assoc, List.cons_append, List.nil_append]

end texts

section trees

theorem writes_ofInt (n : Int) : Writes (.num (CString.ofInt n)) (CString.ofInt n) := by
  apply Json.writes_number (isNumber_ofInt n)
  intro c hc
  exact numberChar_ofInt hc

theorem writes_ofNat (n : Nat) : Writes (.num (CString.ofNat n)) (CString.ofNat n) :=
  writes_ofInt n

def TransactionId.tree (t : TransactionId) : Json.Tree :=
  .arr [.str t.name, .num (CString.ofNat t.id.toNat)]

theorem TransactionId.writes {t : TransactionId} (h : Plain t.name) : Writes t.tree t.toJson := by
  rw [toJson_eq]
  apply Json.writes_arrayText
  exact .cons (Json.writes_quoted h) (.cons (writes_ofNat _) .nil)

def InstanceId.tree (i : InstanceId) : Json.Tree :=
  .obj (("instance".toList, .num (CString.ofInt i.instance_.toInt))
    :: if i.name.isEmpty then [] else [("name".toList, .str i.name)])

theorem InstanceId.writes {i : InstanceId} (h : Plain i.name) : Writes i.tree i.toJson := by
  rw [toJson_eq]
  apply Json.writes_objectText
  unfold members
  refine .cons (Json.writesMember rfl (writes_ofInt _)) ?_
  split
  . exact .nil
  . exact .cons (Json.writesMember rfl (Json.writes_quoted h)) .nil

structure Response.IsPlain (r : Response) : Prop where
  name : Plain r.name
  subject : Plain r.subject
  activationId : Plain r.activationId
  version : Plain r.version
  namespace_ : Plain r.namespace_

def Response.tree (r : Response) (result : Json.Tree) (annotations : List Json.Tree) : Json.Tree :=
  .obj [
    ("duration".toList, .num (CString.ofInt r.duration.toInt)),
    ("name".toList, .str r.name),
    ("subject".toList, .str r.subject),
    ("activationId".toList, .str r.activationId),
    ("publish".toList, .bool false),
    ("version".toList, .str r.version),
    ("end".toList, .num (CString.ofInt r.end_.toInt)),
    ("start".toList, .num (CString.ofInt r.start.toInt)),
    ("namespace".toList, .str r.namespace_),
    ("response".toList,
      .obj [
        ("statusCode".toList, .num (CString.ofInt r.statusCode.toInt)),
        ("result".toList, result)
      ]),
    ("logs".toList, .arr []),
    ("annotations".toList, .arr annotations)
  ]

theorem writes_false : Writes (.bool false) "false".toList :=
  Json.writes_of_parse rfl

theorem Response.writes {r : Response} {result : Json.Tree} {annotations : List Json.Tree}
    (h : r.IsPlain) (hpublish : r.publish = "false".toList)
    (hresult : Json.parse r.result = some result)
    (hannotations : Writes (.arr annotations) ('[' :: (r.annotations ++ [']']))) :
    Writes (r.tree result annotations) r.toJson := by
  have hresponse : Writes
      (.obj [
        ("statusCode".toList, .num (CString.ofInt r.statusCode.toInt)),
        ("result".toList, result)
      ])
      (objectText [
        ("statusCode".toList, CString.ofInt r.statusCode.toInt),
        ("result".toList, r.result)
      ]) := by
    apply Json.writes_objectText
    refine .cons (Json.writesMember rfl (writes_ofInt _)) ?_
    exact .cons (Json.writesMember rfl (Json.writes_of_parse hresult)) .nil
  have hpublish : Writes (.bool false) r.publish := by
    rw [hpublish]
    exact writes_false
  rw [toJson_eq]
  apply Json.writes_objectText
  refine .cons (Json.writesMember rfl (writes_ofInt _)) ?_
  refine .cons (Json.writesMember rfl (Json.writes_quoted h.name)) ?_
  refine .cons (Json.writesMember rfl (Json.writes_quoted h.subject)) ?_
  refine .cons (Json.writesMember rfl (Json.writes_quoted h.activationId)) ?_
  refine .cons (Json.writesMember rfl hpublish) ?_
  refine .cons (Json.writesMember rfl (Json.writes_quoted h.version)) ?_
  refine .cons (Json.writesMember rfl (writes_ofInt _)) ?_
  refine .cons (Json.writesMember rfl (writes_ofInt _)) ?_
  refine .cons (Json.writesMember rfl (Json.writes_quoted h.namespace_)) ?_
  refine .cons (Json.writesMember rfl hresponse) ?_
  refine .cons (Json.writesMember rfl (Json.writes_arrayText .nil)) ?_
  exact .cons (Json.writesMember rfl hannotations) .nil

def CompletionMessage.tree (cm : CompletionMessage) (response : Json.Tree) : Json.Tree :=
  .obj [
    ("transid".toList, cm.transid.tree),
    ("response".toList, response),
    ("invoker".toList, cm.invoker.tree)
  ]

theorem CompletionMessage.writes {cm : CompletionMessage} {response : Json.Tree}
    (htransid : Plain cm.transid.name) (hresponse : Writes response cm.response.toJson)
    (hinvoker : Plain cm.invoker.name) :
    Writes (cm.tree response) cm.toJson := by
  rw [toJson_eq]
  apply Json.writes_objectText
  refine .cons (Json.writesMember rfl (TransactionId.writes htransid)) ?_
  refine .cons (Json.writesMember rfl hresponse) ?_
  exact .cons (Json.writesMember rfl (InstanceId.writes hinvoker)) .nil

end trees

end Msg
end Seuss
