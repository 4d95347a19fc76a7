import Seuss.Data.CString

/-!
This module contains the records that the controller and the invoker exchange. A `size_t` that is
hashed, wraps around or is subtracted is a `UInt64`, one that only counts bytes is a `Nat`.
-/

namespace Seuss

-- nanoseconds of a clock
abbrev Time := Int

def millisecondsBetween (start stop : Time) : UInt64 :=
  UInt64.ofInt (Int.tdiv (stop - start) 1000000)

structure ExecStats where
  runTime : UInt64
  initTime : UInt64
  -- success=0 failed=1
  status : Bool
  deriving DecidableEq, Repr

def ExecStats.zero : ExecStats where
  runTime := 0
  initTime := 0
  status := false

abbrev ActivationIdBuf := { s : CString // s.length = 34 }

def ActivationIdBuf.filled (c : Char) : ActivationIdBuf :=
  ⟨List.replicate 34 c, List.length_replicate⟩

structure InvocationStats where
  transactionId : UInt64
  functionId : UInt64
  argsSize : Nat
  activationId : ActivationIdBuf
  exec : ExecStats
  deriving DecidableEq

structure Invocation where
  info : InvocationStats
  code : CString
  args : CString
  deriving DecidableEq

-- The invoker is built with `-DNDEBUG`, which compiles `assert` and `kassert` out.
inductive Build where
  | debug
  | release
  deriving DecidableEq, Repr

inductive Fault where
  | assertion
  | kabort
  | undefined
  deriving DecidableEq, Repr

def Build.kassert (build : Build) (cond : Bool) : Except Fault Unit :=
  match build with
  | .debug => if cond then .ok () else .error .assertion
  | .release => .ok ()

@[simp]
theorem Build.kassert_true (build : Build) : build.kassert true = .ok () := by
  cases build <;> rfl

theorem Build.kassert_cases (build : Build) (cond : Bool) :
    build.kassert cond = .ok () ∨ build.kassert cond = .error .assertion := by
  cases build <;> cases cond <;> simp [Build.kassert]

theorem ok_of_bind {x : Except ε α} {f : α → Except ε β} {b : β} (h : x >>= f = .ok b) :
    ∃ a, x = .ok a ∧ f a = .ok b := by
  cases x with
  | error e => cases h
  | ok a => exact ⟨a, rfl, h⟩

end Seuss
