import Seuss.Basic

/-!
This module contains `seuss::SeussChannel`, which carries requests from the hosted process to the
native one and replies back. The same `ReceiveMessage` is compiled for both sides.
-/

namespace Seuss

inductive Side where
  | native
  | hosted
  deriving DecidableEq, Repr

-- A `uint8_t` on the wire, so a received one can be none of the enumerators.
inductive MsgType where
  | ping
  | request
  | reply
  | unknown (byte : UInt8)
  deriving DecidableEq

structure MsgHeader where
  type : MsgType
  len : Nat
  record : InvocationStats
  deriving DecidableEq

def sizeofMsgHeader : Nat := 104

-- A buffer whose first segment holds a whole header, followed by `first`, and the further segments
-- of the chain; or one of `len` bytes whose first segment is shorter than a header, with what a
-- header read at its front gives.
inductive IOBuf where
  | message (hdr : MsgHeader) (first : CString) (rest : List CString)
  | short (len : Nat) (front : MsgHeader)
  deriving DecidableEq

inductive Received where
  | ping
  | queue (i : Invocation)
  | resolveActivation (istats : InvocationStats) (res : CString)
  | ignored
  deriving DecidableEq

namespace IOBuf

def computeChainDataLength (buf : IOBuf) : Nat :=
  match buf with
  | .message _ first rest => sizeofMsgHeader + first.length + rest.flatten.length
  | .short len _ => len

def isChained (buf : IOBuf) : Bool :=
  match buf with
  | .message _ _ rest => !rest.isEmpty
  | .short _ _ => false

def header (buf : IOBuf) : MsgHeader :=
  match buf with
  | .message hdr _ _ => hdr
  | .short _ front => front

-- `DataPointer::Get<MsgHeader>()`, reading past the end of the first segment is undefined
def getHeader (buf : IOBuf) : Except Fault MsgHeader :=
  match buf with
  | .message hdr _ _ => .ok hdr
  | .short _ _ => .error .undefined

def data (buf : IOBuf) : CString :=
  match buf with
  | .message _ first _ => first
  | .short _ _ => []

def remaining (buf : IOBuf) : CString :=
  match buf with
  | .message _ first rest => first ++ rest.flatten
  | .short _ _ => []

end IOBuf

namespace SeussChannel

-- `std::string::copy` to `pos` of a buffer, writing past its end is undefined
def copy (buf : CString) (pos : Nat) (s : CString) : Except Fault CString :=
  if pos + s.length ≤ buf.length then
    .ok (buf.take pos ++ s ++ buf.drop (pos + s.length))
  else
    .error .undefined

-- `std::string::assign` from `n` bytes at `pos` of a buffer, reading past its end is undefined
def assign (buf : CString) (pos n : Nat) : Except Fault CString :=
  if pos + n ≤ buf.length then
    .ok ((buf.drop pos).take n)
  else
    .error .undefined

-- `DataPointer::Get(n, p)` copies the next `n` bytes of the chain, there must be that many
def dataPointerGet (remaining : CString) (n : Nat) : Except Fault CString :=
  if n ≤ remaining.length then
    .ok (remaining.take n)
  else
    .error .undefined

def copyIf (cond : Bool) (buf : CString) (pos : Nat) (s : CString) : Except Fault CString :=
  if cond then copy buf pos s else .ok buf

def assignIf (cond : Bool) (buf : CString) (pos n : Nat) : Except Fault CString :=
  if cond then assign buf pos n else .ok []

def sendReply (istats : InvocationStats) (args : CString) : Except Fault IOBuf := do
  let buf := List.replicate args.length '\x00'
  let hdr := { type := .reply, len := args.length, record := { istats with argsSize := args.length } }
  let buf ← copyIf (args.length > 0) buf 0 args
  .ok (.message hdr buf [])

def sendRequest (istats : InvocationStats) (args code : CString) : Except Fault IOBuf := do
  let buf := List.replicate (args.length + code.length) '\x00'
  let hdr := { type := .request, len := args.length + code.length, record := istats }
  let buf ← copyIf (args.length > 0) buf 0 args
  let buf ← copyIf (code.length > 0) buf args.length code
  .ok (.message hdr buf [])

def extractPayload (build : Build) (buf : IOBuf) : Except Fault Invocation := do
  let hdr := buf.header
  if hdr.len > 0 then
    let msgBuf ←
      if buf.isChained then
        -- the cursor has moved past the header, the length asked for includes it
        dataPointerGet buf.remaining buf.computeChainDataLength
      else
        .ok buf.data
    build.kassert (hdr.len ≥ hdr.record.argsSize)
    let args ← assignIf (hdr.record.argsSize ≠ 0) msgBuf 0 hdr.record.argsSize
    let code ←
      assignIf (hdr.len > hdr.record.argsSize) msgBuf hdr.record.argsSize
        (hdr.len - hdr.record.argsSize)
    .ok { info := hdr.record, code := code, args := args }
  else
    .ok { info := hdr.record, code := [], args := [] }

-- the switch at the end of `ReceiveMessage`
def processMessageType (side : Side) (hdr : MsgHeader) (i : Invocation) : Except Fault Received :=
  match hdr.type with
  | .ping => .ok .ping
  | .request =>
    match side with
    | .native => .ok (.queue i)
    | .hosted => .error .kabort
  | .reply =>
    match side with
    | .native => .error .kabort
    | .hosted => .ok (.resolveActivation hdr.record i.args)
  | .unknown _ => .ok .ignored

def receiveMessage (side : Side) (build : Build) (buf : IOBuf) : Except Fault Received := do
  build.kassert (buf.computeChainDataLength ≥ sizeofMsgHeader)
  let hdr ← buf.getHeader
  let i ← extractPayload build buf
  processMessageType side hdr i

theorem copyIf_middle (front mid back s : CString) (h : s.length = mid.length) :
    copyIf (s.length > 0) (front ++ mid ++ back) front.length s = .ok (front ++ s ++ back) := by
  unfold copyIf
  split
  . simp [copy, h]
  . next hlen =>
    simp only [gt_iff_lt, decide_eq_true_eq, Nat.not_lt, Nat.le_zero] at hlen
    have hs := List.length_eq_zero_iff.mp hlen
    have hmid := List.length_eq_zero_iff.mp (h ▸ hlen)
    rw [hs, hmid]

theorem assignIf_middle (cond : Bool) (front s back : CString) (h : cond = false → s = []) :
    assignIf cond (front ++ s ++ back) front.length s.length = .ok s := by
  unfold assignIf
  split
  . simp [assign]
  . next hcond =>
    rw [h (by simpa using hcond)]

theorem sendReply_eq (istats : InvocationStats) (args : CString) :
    sendReply istats args
      =
    .ok (.message ⟨.reply, args.length, { istats with argsSize := args.length }⟩ args []) := by
  have hargs := copyIf_middle [] (List.replicate args.length '\x00') [] args (by simp)
  simp only [List.nil_append, List.append_nil, List.length_nil] at hargs
  simp only [sendReply, hargs, bind, Except.bind]

theorem sendRequest_eq (istats : InvocationStats) (args code : CString) :
    sendRequest istats args code
      =
    .ok (.message ⟨.request, args.length + code.length, istats⟩ (args ++ code) []) := by
  have hargs := copyIf_middle [] (List.replicate args.length '\x00')
    (List.replicate code.length '\x00') args (by simp)
  have hcode := copyIf_middle args (List.replicate code.length '\x00') [] code (by simp)
  simp only [List.nil_append, List.append_nil, List.length_nil, List.replicate_append_replicate]
    at hargs hcode
  simp only [sendRequest, hargs, hcode, bind, Except.bind]

theorem extractPayload_message (build : Build) (type : MsgType) (record : InvocationStats)
    (args code : CString) (h : record.argsSize = args.length) :
    extractPayload build (.message ⟨type, args.length + code.length, record⟩ (args ++ code) [])
      =
    .ok ⟨record, code, args⟩ := by
  have hargs := assignIf_middle (args.length ≠ 0) [] args code (by simp)
  have hcode := assignIf_middle (args.length + code.length > args.length) args code [] (by
    intro hlen
    rw [decide_eq_false_iff_not] at hlen
    rw [← List.length_eq_zero_iff]
    omega)
  rw [List.nil_append, List.length_nil] at hargs
  rw [List.append_nil] at hcode
  unfold extractPayload
  simp only [IOBuf.header, IOBuf.isChained, IOBuf.data, List.isEmpty_nil, Bool.not_true,
    Bool.false_eq_true, ↓reduceIte, h, bind, Except.bind, Nat.add_sub_cancel_left]
  split
  . have hkassert : decide (args.length + code.length ≥ args.length) = true := by
      simp
    rw [hkassert, Build.kassert_true]
    dsimp only
    rw [hargs]
    dsimp only
    rw [hcode]
  . next hlen =>
    have hargs : args = [] := by
      rw [← List.length_eq_zero_iff]
      omega
    have hcode : code = [] := by
      rw [← List.length_eq_zero_iff]
      omega
    rw [hargs, hcode]

theorem receiveMessage_message (side : Side) (build : Build) (hdr : MsgHeader) (first : CString)
    (rest : List CString) :
    receiveMessage side build (.message hdr first rest)
      =
    (extractPayload build (.message hdr first rest)).bind (processMessageType side hdr) := by
  have hlen : (IOBuf.message hdr first rest).computeChainDataLength ≥ sizeofMsgHeader := by
    simp only [IOBuf.computeChainDataLength]
    omega
  simp only [receiveMessage, IOBuf.getHeader, hlen, decide_true, Build.kassert_true, bind,
    Except.bind]

theorem receiveMessage_request (build : Build) (istats : InvocationStats) (args code : CString)
    (h : istats.argsSize = args.length) :
    (sendRequest istats args code).bind (receiveMessage .native build)
      =
    .ok (.queue ⟨istats, code, args⟩) := by
  rw [sendRequest_eq]
  dsimp only [Except.bind]
  rw [receiveMessage_message, extractPayload_message build _ _ _ _ h]
  rfl

theorem receiveMessage_reply (build : Build) (istats : InvocationStats) (res : CString) :
    (sendReply istats res).bind (receiveMessage .hosted build)
      =
    .ok (.resolveActivation { istats with argsSize := res.length } res) := by
  have hpayload := extractPayload_message build .reply { istats with argsSize := res.length } res []
    rfl
  rw [List.append_nil, List.length_nil, Nat.add_zero] at hpayload
  rw [sendReply_eq]
  dsimp only [Except.bind]
  rw [receiveMessage_message, hpayload]
  rfl

end SeussChannel
end Seuss
