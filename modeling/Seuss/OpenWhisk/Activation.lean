import Seuss.Json.Parser
import Seuss.OpenWhisk.Msg

/-!
This module contains `openwhisk::msg::ActivationMessage(json)`, which takes a message from Kafka apart.
The JSON library that it uses is a parameter.
-/

namespace Seuss
namespace Msg

inductive YajlType where
  | string
  | number
  | object
  | array
  deriving DecidableEq, Repr

structure Yajl where
  treeParse : CString → Option Json.Tree
  treeGet : Json.Tree → List CString → YajlType → Option Json.Tree
  -- `YAJL_GET_INTEGER`, which does not look at the type of the node
  getInteger : Json.Tree → Int64

def YajlType.holds (t : YajlType) (v : Json.Tree) : Bool :=
  match t, v with
  | .string, .str _ => true
  | .number, .num _ => true
  | .object, .obj _ => true
  | .array, .arr _ => true
  | _, _ => false

-- `yajl_tree_get`: of the members with the same name, the first one counts, and names are C strings
def findNode (node : Json.Tree) (path : List CString) : Option Json.Tree :=
  match path, node with
  | [], v => some v
  | name :: path, .obj members =>
    (members.find? fun m => CString.cstr m.1 = name).bind fun m => findNode m.2 path
  | _ :: _, _ => none

/--
What is relied on: a JSON text is parsed to its tree, a node is found by its path if it has the type that
is asked for, and an integer of 64 bits is read as it is.
-/
structure Yajl.Finds (yajl : Yajl) : Prop where
  treeParse : ∀ s v, Json.parse s = some v → yajl.treeParse s = some v
  treeGet : ∀ node path t, yajl.treeGet node path t = (findNode node path).filter t.holds
  getInteger : ∀ n : Int64, yajl.getInteger (.num (CString.ofInt n.toInt)) = n

inductive Fault where
  | outOfFuel
  | outOfBounds
  | nullString
  | bufferOverrun
  deriving DecidableEq, Repr

-- a `std::string` made of `YAJL_GET_STRING(v)`, which is a null pointer for other nodes
def getString (v : Json.Tree) : Except Fault CString :=
  match v with
  | .str s => .ok (CString.cstr s)
  | _ => .error .nullString

section content

variable (yajl : Yajl)

def contentValue (v : Json.Tree) : CString :=
  match v with
  | .str s => "\"".toList ++ CString.cstr s ++ "\"".toList
  | v => CString.ofInt (yajl.getInteger v).toInt

def contentMember (m : CString × Json.Tree) : CString :=
  "\"".toList ++ CString.cstr m.1 ++ "\":".toList ++ contentValue yajl m.2

def contentLoop (members : List (CString × Json.Tree)) (fuel : Nat) (i : UInt16) (ss : CString) :
    Except Fault CString :=
  match fuel with
  | 0 => .error .outOfFuel
  | fuel + 1 =>
    match members[i.toNat]? with
    | none => .ok ss
    | some m =>
      let ss := if i > 0 then ss ++ ",".toList else ss
      contentLoop members fuel (i + 1) (ss ++ contentMember yajl m)

def getContent (fuel : Nat) (node : Json.Tree) : Except Fault CString :=
  match yajl.treeGet node ["content".toList] .object with
  | some (.obj members) => do
    let ss ← contentLoop yajl members fuel 0 "\x7b".toList
    return ss ++ "\x7d".toList
  | _ => .ok "\x7b\x7d".toList

end content

section activation

variable (yajl : Yajl)

def getStringAt (node : Json.Tree) (path : List CString) (s : CString) : Except Fault CString :=
  match yajl.treeGet node path .string with
  | some v => getString v
  | none => .ok s

def getTransid (node : Json.Tree) (transid : TransactionId) : Except Fault TransactionId :=
  match yajl.treeGet node ["transid".toList] .array with
  | some (.arr values) =>
    match values[0]? with
    | none => .error .outOfBounds
    | some name => do
      let name ← getString name
      match values[1]? with
      | none => .error .outOfBounds
      | some id => return { name, id := (yajl.getInteger id).toUInt64 }
  | _ => .ok transid

def getInstanceId (node : Json.Tree) (id : InstanceId) : Except Fault InstanceId := do
  let instance_ :=
    match yajl.treeGet node ["rootControllerIndex".toList, "instance".toList] .number with
    | some v => yajl.getInteger v
    | none => id.instance_
  let name ← getStringAt yajl node ["rootControllerIndex".toList, "name".toList] id.name
  return { instance_, name }

def getAction (node : Json.Tree) (action : Action) : Except Fault Action := do
  let path ← getStringAt yajl node ["action".toList, "path".toList] action.path
  let name ← getStringAt yajl node ["action".toList, "name".toList] action.name
  let version ← getStringAt yajl node ["action".toList, "version".toList] action.version
  return { path, name, version }

def getUser (node : Json.Tree) (user : User) : Except Fault User := do
  let subject ← getStringAt yajl node ["user".toList, "subject".toList] user.subject
  let authkey ← getStringAt yajl node ["user".toList, "authkey".toList] user.authkey
  let name ← getStringAt yajl node ["user".toList, "namespace".toList, "name".toList]
    user.namespace_.name
  let uuid ← getStringAt yajl node ["user".toList, "namespace".toList, "uuid".toList]
    user.namespace_.uuid
  return { subject, authkey, namespace_ := { name, uuid } }

-- `id_`, `instance_` and `blocking_` have no initializer, they hold what `uninit` holds.
def ActivationMessage.new (uninit : ActivationMessage) : ActivationMessage where
  transid := { name := [], id := uninit.transid.id }
  rootControllerIndex := { instance_ := uninit.rootControllerIndex.instance_, name := [] }
  activationId := []
  revision := []
  content := []
  action := { path := [], name := [], version := [] }
  user := { subject := [], authkey := [], namespace_ := { name := [], uuid := [] } }
  blocking := uninit.blocking

def ActivationMessage.ofNode (fuel : Nat) (m : ActivationMessage) (node : Json.Tree) :
    Except Fault ActivationMessage := do
  let activationId ← getStringAt yajl node ["activationId".toList] m.activationId
  let content ← getContent yajl fuel node
  let revision ← getStringAt yajl node ["revision".toList] m.revision
  let transid ← getTransid yajl node m.transid
  let action ← getAction yajl node m.action
  let rootControllerIndex ← getInstanceId yajl node m.rootControllerIndex
  let user ← getUser yajl node m.user
  return { m with activationId, content, revision, transid, action, rootControllerIndex, user }

def ActivationMessage.ofText (fuel : Nat) (uninit : ActivationMessage) (json : CString) :
    Except Fault ActivationMessage :=
  match yajl.treeParse (CString.cstr json) with
  | none => .ok (.new uninit)
  | some node => ofNode yajl fuel (.new uninit) node

-- `char errbuf[1024]`
def errbufSize : Nat := 1024

-- `yajl_tree_parse` first clears `errbuf`, for which it is given the size of the text.
def ActivationMessage.ofJson (fuel : Nat) (uninit : ActivationMessage) (json : CString) :
    Except Fault ActivationMessage :=
  if errbufSize < json.length then .error .bufferOverrun else ofText yajl fuel uninit json

end activation

section taken

variable {yajl : Yajl} {fuel : Nat} {uninit m am : ActivationMessage} {node : Json.Tree} {json : CString}

theorem ActivationMessage.ofJson_eq_ok_iff :
    ofJson yajl fuel uninit json = .ok am
      ↔
    json.length ≤ errbufSize ∧ ofText yajl fuel uninit json = .ok am := by
  unfold ofJson
  split
  . next hlt =>
    constructor
    . intro h
      cases h
    . rintro ⟨hle, _⟩
      exact absurd hlt (by omega)
  . next hle => exact ⟨fun h => ⟨by omega, h⟩, And.right⟩

/--
What the constructor has done once it gets to its end.
-/
structure ActivationMessage.TakenFrom (yajl : Yajl) (fuel : Nat) (m : ActivationMessage)
    (node : Json.Tree) (am : ActivationMessage) : Prop where
  activationId : getStringAt yajl node ["activationId".toList] m.activationId = .ok am.activationId
  content : getContent yajl fuel node = .ok am.content
  revision : getStringAt yajl node ["revision".toList] m.revision = .ok am.revision
  transid : getTransid yajl node m.transid = .ok am.transid
  action : getAction yajl node m.action = .ok am.action
  rootControllerIndex : getInstanceId yajl node m.rootControllerIndex = .ok am.rootControllerIndex
  user : getUser yajl node m.user = .ok am.user
  blocking : am.blocking = m.blocking

theorem ActivationMessage.takenFrom_of_ofNode (h : ofNode yajl fuel m node = .ok am) :
    TakenFrom yajl fuel m node am := by
  rcases ok_of_bind h with ⟨activationId, hid, h⟩
  rcases ok_of_bind h with ⟨content, hcontent, h⟩
  rcases ok_of_bind h with ⟨revision, hrevision, h⟩
  rcases ok_of_bind h with ⟨transid, htransid, h⟩
  rcases ok_of_bind h with ⟨action, haction, h⟩
  rcases ok_of_bind h with ⟨rootControllerIndex, hroot, h⟩
  rcases ok_of_bind h with ⟨user, huser, h⟩
  cases h
  exact ⟨hid, hcontent, hrevision, htransid, haction, hroot, huser, rfl⟩

end taken

end Msg
end Seuss
