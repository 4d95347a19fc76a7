import Seuss.Basic

/-!
This module contains the messages that are exchanged with OpenWhisk over Kafka.
-/

namespace Seuss
namespace Msg

structure TransactionId where
  name : CString
  id : UInt64
  deriving DecidableEq

structure InstanceId where
  instance_ : Int64
  name : CString
  deriving DecidableEq

structure Action where
  path : CString
  name : CString
  version : CString
  deriving DecidableEq

structure Namespace where
  name : CString
  uuid : CString
  deriving DecidableEq

structure User where
  subject : CString
  authkey : CString
  namespace_ : Namespace
  deriving DecidableEq

structure ActivationMessage where
  transid : TransactionId
  rootControllerIndex : InstanceId
  activationId : CString
  revision : CString
  content : CString
  action : Action
  user : User
  blocking : Bool
  deriving DecidableEq

structure Response where
  activationId : CString := []
  name : CString := []
  namespace_ : CString := []
  publish : CString := "false".toList
  subject : CString := []
  version : CString := []
  annotations : CString := []
  duration : Int64 := 0
  start : Int64 := 0
  end_ : Int64 := 0
  statusCode : Int64
  result : CString := "\x7b\x7d".toList
  deriving DecidableEq

structure CompletionMessage where
  transid : TransactionId
  response : Response
  invoker : InstanceId
  deriving DecidableEq

-- `status_code_` and `invoker_.instance_` have no initializer, they hold what `uninit` holds.
def CompletionMessage.ofActivation (uninit : CompletionMessage) (am : ActivationMessage) :
    CompletionMessage where
  transid := am.transid
  response := {
    activationId := am.activationId
    name := am.action.name
    namespace_ := am.user.namespace_.name
    subject := am.user.subject
    version := am.action.version
    statusCode := uninit.response.statusCode
  }
  invoker := { instance_ := uninit.invoker.instance_, name := [] }

-- The activation that `openwhisk::test` schedules, made from the dummy message `amjson`. That message
-- gives the namespace as a string, which the parser skips, and its `blocking` is not parsed.
def testActivation (transid revision : CString) : ActivationMessage where
  transid := { name := transid, id := 1532474133193 }
  rootControllerIndex := { instance_ := 0, name := [] }
  activationId := "20f9fcfd0c3a4348b9fcfd0c3aa348c7".toList
  revision := revision
  content := "\x7b\"spin\":\"27\"\x7d".toList
  action := {
    path := "user_9801".toList
    name := "29523".toList
    version := "0.0.1".toList
  }
  user := {
    subject := "user_9801".toList
    authkey := []
    namespace_ := { name := [], uuid := [] }
  }
  blocking := false

end Msg
end Seuss
