import Seuss.Channel.Basic

/-!
This module contains what `ReceiveMessage` makes of the buffers it gets: those that the two send
functions built, the same bytes in a chain of segments, and arbitrary ones.
-/

namespace Seuss
namespace SeussChannel

section payload

variable {side : Side} {build : Build} {hdr : MsgHeader} {first : CString} {rest : List CString}

theorem processMessageType_cases (side : Side) (hdr : MsgHeader) (i : Invocation) :
    processMessageType side hdr i = .error .kabort
      ∨ ∃ received, processMessageType side hdr i = .ok received := by
  unfold processMessageType
  split
  . exact .inr ⟨_, rfl⟩
  . cases side
    . exact .inr ⟨_, rfl⟩
    . exact .inl rfl
  . cases side
    . exact .inl rfl
    . exact .inr ⟨_, rfl⟩
  . exact .inr ⟨_, rfl⟩

theorem receiveMessage_of_error {fault : Fault}
    (h : extractPayload build (.message hdr first rest) = .error fault) :
    receiveMessage side build (.message hdr first rest) = .error fault := by
  rw [receiveMessage_message, h]
  rfl

theorem receiveMessage_of_ok {i : Invocation}
    (h : extractPayload build (.message hdr first rest) = .ok i) :
    receiveMessage side build (.message hdr first rest) = processMessageType side hdr i := by
  rw [receiveMessage_message, h]
  rfl

theorem receiveMessage_ne_of_ok {fault : Fault} {i : Invocation} (hfault : fault ≠ .kabort)
    (h : extractPayload build (.message hdr first rest) = .ok i) :
    receiveMessage side build (.message hdr first rest) ≠ .error fault := by
  rw [receiveMessage_of_ok h]
  rcases processMessageType_cases side hdr i with hkabort | ⟨received, hreceived⟩
  . rw [hkabort]
    intro heq
    cases heq
    exact hfault rfl
  . rw [hreceived]
    intro heq
    cases heq

theorem extractPayload_of_len_eq_zero (build : Build) (first : CString) (rest : List CString)
    (h : hdr.len = 0) :
    extractPayload build (.message hdr first rest) = .ok ⟨hdr.record, [], []⟩ := by
  simp [extractPayload, IOBuf.header, h]

theorem extractPayload_chained (hlen : hdr.len ≠ 0) (hrest : rest ≠ []) :
    extractPayload build (.message hdr first rest) = .error .undefined := by
  have hchained : (IOBuf.message hdr first rest).isChained = true := by
    simp [IOBuf.isChained, hrest]
  have hget : dataPointerGet (IOBuf.message hdr first rest).remaining
      (IOBuf.message hdr first rest).computeChainDataLength = .error .undefined := by
    unfold dataPointerGet
    rw [if_neg]
    simp only [IOBuf.remaining, IOBuf.computeChainDataLength, sizeofMsgHeader, List.length_append]
    omega
  have hpos : hdr.len > 0 := by
    omega
  simp only [extractPayload, IOBuf.header, hpos, hchained, hget, ↓reduceIte, bind, Except.bind]

theorem extractPayload_contiguous (hlen : hdr.len ≠ 0) :
    extractPayload build (.message hdr first [])
      =
    (do
      build.kassert (hdr.len ≥ hdr.record.argsSize)
      let args ← assignIf (hdr.record.argsSize ≠ 0) first 0 hdr.record.argsSize
      let code ←
        assignIf (hdr.len > hdr.record.argsSize) first hdr.record.argsSize
          (hdr.len - hdr.record.argsSize)
      .ok ⟨hdr.record, code, args⟩) := by
  have hpos : hdr.len > 0 := by
    omega
  simp only [extractPayload, IOBuf.header, IOBuf.isChained, IOBuf.data, hpos, List.isEmpty_nil,
    Bool.not_true, Bool.false_eq_true, ↓reduceIte, bind, Except.bind]
  rfl

theorem assignIf_cases (cond : Bool) (buf : CString) (pos n : Nat) :
    assignIf cond buf pos n = .error .undefined ∨ ∃ s, assignIf cond buf pos n = .ok s := by
  unfold assignIf assign
  split
  . split
    . exact .inr ⟨_, rfl⟩
    . exact .inl rfl
  . exact .inr ⟨_, rfl⟩

theorem assignIf_eq_ok (cond : Bool) {buf : CString} {pos n : Nat} (h : pos + n ≤ buf.length) :
    ∃ s, assignIf cond buf pos n = .ok s := by
  unfold assignIf
  split
  . rw [assign, if_pos h]
    exact ⟨_, rfl⟩
  . exact ⟨_, rfl⟩

theorem extractPayload_contiguous_release (first : CString) (hlen : hdr.len ≠ 0) :
    extractPayload .release (.message hdr first []) = .error .undefined
      ∨ ∃ i, extractPayload .release (.message hdr first []) = .ok i := by
  rw [extractPayload_contiguous hlen]
  simp only [Build.kassert, bind, Except.bind]
  rcases assignIf_cases (hdr.record.argsSize ≠ 0) first 0 hdr.record.argsSize with
    hargs | ⟨args, hargs⟩
  . rw [hargs]
    exact .inl rfl
  . rw [hargs]
    rcases assignIf_cases (hdr.len > hdr.record.argsSize) first hdr.record.argsSize
      (hdr.len - hdr.record.argsSize) with hcode | ⟨code, hcode⟩
    . rw [hcode]
      exact .inl rfl
    . rw [hcode]
      exact .inr ⟨_, rfl⟩

theorem extractPayload_inside (build : Build) (hlen : hdr.len ≠ 0)
    (hsplit : hdr.record.argsSize ≤ hdr.len) (hfirst : hdr.len ≤ first.length) :
    ∃ i, extractPayload build (.message hdr first []) = .ok i := by
  have hargsLe : 0 + hdr.record.argsSize ≤ first.length := by
    omega
  have hcodeLe : hdr.record.argsSize + (hdr.len - hdr.record.argsSize) ≤ first.length := by
    omega
  rcases assignIf_eq_ok (hdr.record.argsSize ≠ 0) hargsLe with ⟨args, hargs⟩
  rcases assignIf_eq_ok (hdr.len > hdr.record.argsSize) hcodeLe with ⟨code, hcode⟩
  refine ⟨⟨hdr.record, code, args⟩, ?_⟩
  have hkassert : decide (hdr.len ≥ hdr.record.argsSize) = true := by
    rw [decide_eq_true_iff]
    exact hsplit
  rw [extractPayload_contiguous hlen, hkassert, Build.kassert_true]
  simp only [bind, Except.bind, hargs, hcode]

end payload

def statsOfSize (argsSize : Nat) : InvocationStats where
  transactionId := 1
  functionId := 2
  argsSize := argsSize
  activationId := .filled 'a'
  exec := .zero

theorem roundTrip (build : Build) :
    (∀ (istats : InvocationStats) (args code : CString),
        istats.argsSize = args.length
          →
        ∃ buf, sendRequest istats args code = .ok buf
          ∧ buf.computeChainDataLength = sizeofMsgHeader + args.length + code.length
          ∧ receiveMessage .native build buf = .ok (.queue ⟨istats, code, args⟩))
      ∧
    ∀ (istats : InvocationStats) (res : CString),
        ∃ buf, sendReply istats res = .ok buf
          ∧ buf.computeChainDataLength = sizeofMsgHeader + res.length
          ∧ receiveMessage .hosted build buf
              =
            .ok (.resolveActivation { istats with argsSize := res.length } res) := by
  refine ⟨?_, ?_⟩
  . intro istats args code hsize
    have hreceive := receiveMessage_request build istats args code hsize
    rw [sendRequest_eq] at hreceive
    refine ⟨_, sendRequest_eq istats args code, ?_, hreceive⟩
    simp [IOBuf.computeChainDataLength, Nat.add_assoc]
  . intro istats res
    have hreceive := receiveMessage_reply build istats res
    rw [sendReply_eq] at hreceive
    refine ⟨_, sendReply_eq istats res, ?_, hreceive⟩
    simp [IOBuf.computeChainDataLength]

def spinArgs : CString :=
  "\x7b\"spin\":\"27\"\x7d".toList

def spinMain : CString :=
  "function main(args) \x7b return args; \x7d".toList

theorem roundTrip_spin :
    (sendRequest (statsOfSize 13) spinArgs spinMain).bind (receiveMessage .native .release)
      =
    .ok (.queue ⟨statsOfSize 13, spinMain, spinArgs⟩) := by
  rcases (roundTrip .release).1 (statsOfSize 13) spinArgs spinMain rfl with ⟨buf, hsend, _, hreceive⟩
  rw [hsend]
  exact hreceive

inductive Built : IOBuf → Prop where
  | request {istats : InvocationStats} {args code : CString} {buf : IOBuf}
      (h : sendRequest istats args code = .ok buf) : Built buf
  | reply {istats : InvocationStats} {res : CString} {buf : IOBuf}
      (h : sendReply istats res = .ok buf) : Built buf

-- the same bytes in a chain of at least two segments, the first of which holds the header
inductive Splits : IOBuf → IOBuf → Prop where
  | chain (hdr : MsgHeader) (first : CString) {rest : List CString} (h : rest ≠ []) :
      Splits (.message hdr (first ++ rest.flatten) []) (.message hdr first rest)

structure ReceivedAlike (side : Side) (build : Build) (whole chain : IOBuf) : Prop where
  inside : receiveMessage side build chain ≠ .error .undefined
  same : receiveMessage side build chain = receiveMessage side build whole

theorem Built.len_eq {buf : IOBuf} (h : Built buf) : buf.header.len = buf.data.length := by
  cases h with
  | @request istats args code buf h =>
    rw [sendRequest_eq] at h
    cases h
    simp [IOBuf.header, IOBuf.data]
  | @reply istats res buf h =>
    rw [sendReply_eq] at h
    cases h
    rfl

theorem receivedAlike_iff (side : Side) (build : Build) {whole chain : IOBuf} (hbuilt : Built whole)
    (hsplit : Splits whole chain) :
    ReceivedAlike side build whole chain ↔ whole.data = [] := by
  cases hsplit with
  | @chain hdr first rest hrest =>
    have hlen : hdr.len = (first ++ rest.flatten).length := hbuilt.len_eq
    constructor
    . intro h
      by_contra hdata
      have hpos : hdr.len ≠ 0 := by
        rw [hlen, Ne, List.length_eq_zero_iff]
        exact hdata
      exact h.inside (receiveMessage_of_error (extractPayload_chained hpos hrest))
    . intro hdata
      have hzero : hdr.len = 0 := by
        rw [hlen, List.length_eq_zero_iff]
        exact hdata
      have hchain := extractPayload_of_len_eq_zero build first rest hzero
      have hwhole := extractPayload_of_len_eq_zero build (first ++ rest.flatten) [] hzero
      refine ⟨receiveMessage_ne_of_ok (by decide) hchain, ?_⟩
      rw [receiveMessage_of_ok hchain, receiveMessage_of_ok hwhole]

def wholeReply : IOBuf :=
  .message ⟨.reply, 2, statsOfSize 2⟩ ['\x7b', '\x7d'] []

def chainedReply : IOBuf :=
  .message ⟨.reply, 2, statsOfSize 2⟩ ['\x7b'] [['\x7d']]

theorem wholeReply_built : Built wholeReply :=
  .reply (sendReply_eq (statsOfSize 0) ['\x7b', '\x7d'])

theorem chainedReply_splits : Splits wholeReply chainedReply :=
  .chain ⟨.reply, 2, statsOfSize 2⟩ ['\x7b'] (List.cons_ne_nil ['\x7d'] [])

theorem receivedAlike_iff_chainedReply :
    ReceivedAlike .hosted .debug wholeReply chainedReply ↔ wholeReply.data = [] :=
  receivedAlike_iff .hosted .debug wholeReply_built chainedReply_splits

theorem chainedReply_not_receivedAlike :
    Built wholeReply ∧ Splits wholeReply chainedReply
      ∧ receiveMessage .hosted .release wholeReply
          =
        .ok (.resolveActivation (statsOfSize 2) ['\x7b', '\x7d'])
      ∧ ¬ ReceivedAlike .hosted .release wholeReply chainedReply := by
  refine ⟨wholeReply_built, chainedReply_splits, by decide, ?_⟩
  intro h
  exact h.inside (by decide)

-- A message that an assertion rejects is safe.
structure DecodesSafely (side : Side) (build : Build) (buf : IOBuf) : Prop where
  inside : receiveMessage side build buf ≠ .error .undefined
  argsSize_le : receiveMessage side build buf ≠ .error .assertion
    → buf.header.len > 0 → buf.header.record.argsSize ≤ buf.header.len
  len_le : receiveMessage side build buf ≠ .error .assertion
    → buf.header.len ≤ buf.remaining.length

def WellSized (buf : IOBuf) : Prop :=
  match buf with
  | .message hdr first rest =>
    hdr.len = 0 ∨ (rest = [] ∧ hdr.record.argsSize ≤ hdr.len ∧ hdr.len ≤ first.length)
  | .short _ _ => False

theorem decodesSafely_iff (side : Side) (buf : IOBuf) :
    DecodesSafely side .release buf ↔ WellSized buf := by
  cases buf with
  | short len front =>
    constructor
    . intro h
      exact h.inside rfl
    . intro h
      exact h.elim
  | message hdr first rest =>
    by_cases hlen : hdr.len = 0
    . constructor
      . intro _
        exact .inl hlen
      . intro _
        have hpayload := extractPayload_of_len_eq_zero .release first rest hlen
        refine ⟨receiveMessage_ne_of_ok (by decide) hpayload, ?_, ?_⟩
        . intro _ hpos
          simp [IOBuf.header, hlen] at hpos
        . intro _
          simp [IOBuf.header, hlen]
    . constructor
      . intro h
        have hrest : rest = [] := by
          by_contra hrest
          exact h.inside (receiveMessage_of_error (extractPayload_chained hlen hrest))
        subst hrest
        rcases extractPayload_contiguous_release first hlen with herror | ⟨i, hok⟩
        . exact (h.inside (receiveMessage_of_error herror)).elim
        . have hne : receiveMessage side .release (.message hdr first []) ≠ .error .assertion :=
            receiveMessage_ne_of_ok (by decide) hok
          have hremaining := h.len_le hne
          rw [IOBuf.remaining, List.flatten_nil, List.append_nil] at hremaining
          exact .inr ⟨rfl, h.argsSize_le hne (Nat.pos_of_ne_zero hlen), hremaining⟩
      . intro h
        rcases h with hzero | ⟨hrest, hsplit, hfirst⟩
        . exact (hlen hzero).elim
        . subst hrest
          rcases extractPayload_inside .release hlen hsplit hfirst with ⟨i, hok⟩
          refine ⟨receiveMessage_ne_of_ok (by decide) hok, fun _ _ => hsplit, ?_⟩
          intro _
          simpa [IOBuf.header, IOBuf.remaining] using hfirst

theorem overlong_not_decodesSafely :
    ¬ DecodesSafely .hosted .release (.message ⟨.reply, 64, statsOfSize 64⟩ ['a'] []) := by
  intro h
  exact h.inside (by decide)

end SeussChannel
end Seuss
