import Seuss.Data.CString

/-!
This module contains how the limits of an invoker get from the options of the host to the native side:
`AllocateNativeInstances` appends them to the kernel's command line, and `Invoker::Init` looks for them
there.
-/

namespace Seuss

namespace Dsys

-- `native_invoker_core_concurrency_limit`, `..._spicy_limit` and `..._spicy_reuse`
structure InvokerOptions where
  concurrencyLimit : UInt16
  spicyLimit : UInt16
  spicyReuse : UInt16
  deriving DecidableEq, Repr

def clim : CString :=
  "Clim=".toList

def slim : CString :=
  "Slim=".toList

def rlim : CString :=
  "Rlim=".toList

def appendedArgs (o : InvokerOptions) : List CString :=
  [
    clim ++ CString.ofNat o.concurrencyLimit.toNat,
    slim ++ CString.ofNat o.spicyLimit.toNat
  ]
    ++
  if o.spicyLimit ≠ 0 && o.spicyReuse ≠ 0 then
    [rlim ++ CString.ofNat o.spicyReuse.toNat]
  else
    []

-- `args` are those that the node allocator has already got.
def allocateNativeInstances (o : InvokerOptions) (args : List CString) : List CString :=
  args ++ appendedArgs o

-- `dsys::Init`, which allocates the native instances one after the other
def init (o : InvokerOptions) (count : Nat) (args : List CString) : List CString :=
  match count with
  | 0 => args
  | count + 1 => init o count (allocateNativeInstances o args)

def cmdLine (args : List CString) : CString :=
  match args with
  | [] => []
  | [a] => a
  | a :: args => a ++ ';' :: cmdLine args

end Dsys

namespace Invoker

structure Limits where
  requestConcurrencyLimit : UInt16
  hotInstanceLimit : UInt16
  hotInstanceReuseLimit : UInt16
  deriving DecidableEq, Repr

def Limits.new : Limits where
  requestConcurrencyLimit := 1
  hotInstanceLimit := 0
  hotInstanceReuseLimit := 300

-- what is behind `zkstr` in the command line `cl`, up to the next gap
def argument (cl zkstr : CString) : Option CString := do
  let loc ← cl.find zkstr
  let limStr ← cl.substr (loc + zkstr.length) none
  match limStr.find ";".toList with
  | some gap => limStr.substr 0 (some gap)
  | none => some limStr

def limit (cl zkstr : CString) : Option UInt16 :=
  (argument cl zkstr).map fun limStr => .ofInt (CString.atoi limStr)

def init (cl : CString) (l : Limits) : Limits :=
  let l :=
    match limit cl Dsys.clim with
    | some n => { l with requestConcurrencyLimit := n }
    | none => l
  match limit cl Dsys.slim with
  | some n =>
    let l := { l with hotInstanceLimit := n }
    match limit cl Dsys.rlim with
    | some n => { l with hotInstanceReuseLimit := n }
    | none => l
  | none => l

end Invoker

namespace Dsys

section argument

variable {zkstr v : CString}

theorem argument_append (hv : ';' ∉ v) : Invoker.argument (zkstr ++ v) zkstr = some v := by
  have hgap : v.find ";".toList = none := by
    apply CString.find_eq_none
    intro h
    exact hv (h.subset List.mem_cons_self)
  simp only [Invoker.argument, CString.find_append, Option.bind_eq_bind, Option.bind_some,
    Nat.zero_add, CString.substr_append, hgap]

theorem argument_append_cons (hv : ';' ∉ v) (rest : CString) :
    Invoker.argument (zkstr ++ (v ++ ';' :: rest)) zkstr = some v := by
  have hgap : (v ++ ';' :: rest).find ";".toList = some v.length := CString.find_singleton hv rest
  simp only [Invoker.argument, CString.find_append, Option.bind_eq_bind, Option.bind_some,
    Nat.zero_add, CString.substr_append, hgap, CString.substr_zero]

theorem argument_cons {a : CString} (ha : ¬ zkstr <:+: a) (hzkstr : ';' ∉ zkstr) (cl : CString) :
    Invoker.argument (a ++ ';' :: cl) zkstr = Invoker.argument cl zkstr := by
  unfold Invoker.argument
  rw [CString.find_append_cons ha hzkstr]
  cases hloc : cl.find zkstr with
  | none => rfl
  | some loc =>
    have hpos : loc + (a.length + 1) + zkstr.length
        = (a ++ [';']).length + (loc + zkstr.length) := by
      rw [List.length_append, List.length_singleton]
      omega
    have hsubstr : CString.substr (a ++ ';' :: cl) (loc + (a.length + 1) + zkstr.length) none
        = CString.substr cl (loc + zkstr.length) none := by
      rw [hpos, List.append_cons, CString.substr_append_add]
    simp only [Option.map_some, Option.bind_eq_bind, Option.bind_some, hsubstr]

/--
The value of a key is found wherever it stands, if the arguments that have the key all give this value.
-/
theorem argument_cmdLine {args : List CString} (hzkstr : ';' ∉ zkstr) (hv : ';' ∉ v)
    (hmem : zkstr ++ v ∈ args) (hother : ∀ a ∈ args, a = zkstr ++ v ∨ ¬ zkstr <:+: a) :
    Invoker.argument (cmdLine args) zkstr = some v := by
  induction args with
  | nil => cases hmem
  | cons a args ih =>
    rw [List.forall_mem_cons] at hother
    cases args with
    | nil =>
      rw [List.mem_singleton] at hmem
      rw [cmdLine, ← hmem]
      exact argument_append hv
    | cons b args =>
      rw [cmdLine]
      . rcases hother.1 with rfl | ha
        . rw [List.append_assoc]
          exact argument_append_cons hv _
        . rw [argument_cons ha hzkstr]
          rw [List.mem_cons] at hmem
          rcases hmem with rfl | hmem
          . exact absurd (List.prefix_append zkstr v).isInfix ha
          . exact ih hmem hother.2
      . simp

theorem argument_cmdLine_eq_none {args : List CString} (hzkstr : ';' ∉ zkstr) (hne : zkstr ≠ [])
    (hother : ∀ a ∈ args, ¬ zkstr <:+: a) :
    Invoker.argument (cmdLine args) zkstr = none := by
  induction args with
  | nil =>
    have hnot : ¬ zkstr <:+: cmdLine [] := by
      intro h
      exact hne (List.eq_nil_of_subset_nil h.subset)
    rw [Invoker.argument, CString.find_eq_none hnot]
    rfl
  | cons a args ih =>
    rw [List.forall_mem_cons] at hother
    cases args with
    | nil =>
      rw [cmdLine, Invoker.argument, CString.find_eq_none hother.1]
      rfl
    | cons b args =>
      rw [cmdLine]
      . rw [argument_cons hother.1 hzkstr]
        exact ih hother.2
      . simp

end argument

section limits

variable {o : InvokerOptions} {args : List CString}

def Foreign (a : CString) : Prop :=
  ¬ clim <:+: a ∧ ¬ slim <:+: a ∧ ¬ rlim <:+: a

theorem foreign_of_not_mem {a : CString} (hC : 'C' ∉ a) (hS : 'S' ∉ a) (hR : 'R' ∉ a) : Foreign a := by
  refine ⟨?_, ?_, ?_⟩
  . intro h
    exact hC (h.subset List.mem_cons_self)
  . intro h
    exact hS (h.subset List.mem_cons_self)
  . intro h
    exact hR (h.subset List.mem_cons_self)

/--
The arguments for the invoker are there, in whatever order and however often, among others that have
none of its keys.
-/
structure Carries (o : InvokerOptions) (args : List CString) : Prop where
  own : ∀ a ∈ appendedArgs o, a ∈ args
  other : ∀ a ∈ args, a ∈ appendedArgs o ∨ Foreign a

theorem carries_init {before after : List CString} (hbefore : ∀ a ∈ before, a ∈ appendedArgs o ∨ Foreign a)
    (hafter : ∀ a ∈ after, Foreign a) (count : Nat) :
    Carries o (init o (count + 1) before ++ after) := by
  induction count generalizing before with
  | zero =>
    rw [init, init, allocateNativeInstances]
    constructor
    . intro a ha
      exact List.mem_append_left _ (List.mem_append_right _ ha)
    . intro a ha
      rw [List.mem_append, List.mem_append] at ha
      rcases ha with (ha | ha) | ha
      . exact hbefore a ha
      . exact .inl ha
      . exact .inr (hafter a ha)
  | succ count ih =>
    rw [init]
    apply ih
    intro a ha
    rw [allocateNativeInstances, List.mem_append] at ha
    rcases ha with ha | ha
    . exact hbefore a ha
    . exact .inl ha

theorem mem_appendedArgs {a : CString} :
    a ∈ appendedArgs o
      ↔
    a = clim ++ CString.ofNat o.concurrencyLimit.toNat ∨ a = slim ++ CString.ofNat o.spicyLimit.toNat
      ∨ (o.spicyLimit ≠ 0 ∧ o.spicyReuse ≠ 0 ∧ a = rlim ++ CString.ofNat o.spicyReuse.toNat) := by
  unfold appendedArgs
  split
  . next h =>
    rw [Bool.and_eq_true, decide_eq_true_eq, decide_eq_true_eq] at h
    simp [h]
  . next h =>
    rw [Bool.and_eq_true, decide_eq_true_eq, decide_eq_true_eq, not_and] at h
    simp only [List.append_nil, List.mem_cons, List.not_mem_nil, or_false]
    tauto

theorem not_occurs_in_arg {k k' : CString} {c : Char} (hc : c ∈ k) (hk' : c ∉ k') (hdigit : c.isDigit = false)
    (n : Nat) :
    ¬ k <:+: k' ++ CString.ofNat n := by
  intro h
  have hmem := h.subset hc
  rw [List.mem_append] at hmem
  rcases hmem with hmem | hmem
  . exact hk' hmem
  . rw [CString.isDigit_of_mem_ofNat hmem] at hdigit
    cases hdigit

theorem not_mem_ofNat (n : Nat) : ';' ∉ CString.ofNat n := by
  intro h
  cases CString.isDigit_of_mem_ofNat h

theorem limit_of_argument {cl zkstr : CString} {n : UInt16}
    (h : Invoker.argument cl zkstr = some (CString.ofNat n.toNat)) :
    Invoker.limit cl zkstr = some n := by
  have hvalue : UInt16.ofInt (n.toNat : Int) = n := by
    have hlt := n.toNat_lt
    rw [UInt16.ofInt, Int.emod_eq_of_lt (by omega) (by omega), Int.toNat_natCast, UInt16.ofNat_toNat]
  rw [Invoker.limit, h, Option.map_some, CString.atoi_ofNat, hvalue]

theorem limit_clim (h : Carries o args) :
    Invoker.limit (cmdLine args) clim = some o.concurrencyLimit := by
  apply limit_of_argument
  apply argument_cmdLine (by decide) (not_mem_ofNat _)
  . exact h.own _ (mem_appendedArgs.mpr (.inl rfl))
  . intro a ha
    rcases h.other a ha with ha | ha
    . rcases mem_appendedArgs.mp ha with rfl | rfl | ⟨_, _, rfl⟩
      . exact .inl rfl
      . exact .inr (not_occurs_in_arg (c := 'C') (by decide) (by decide) (by decide) _)
      . exact .inr (not_occurs_in_arg (c := 'C') (by decide) (by decide) (by decide) _)
    . exact .inr ha.1

theorem limit_slim (h : Carries o args) :
    Invoker.limit (cmdLine args) slim = some o.spicyLimit := by
  apply limit_of_argument
  apply argument_cmdLine (by decide) (not_mem_ofNat _)
  . exact h.own _ (mem_appendedArgs.mpr (.inr (.inl rfl)))
  . intro a ha
    rcases h.other a ha with ha | ha
    . rcases mem_appendedArgs.mp ha with rfl | rfl | ⟨_, _, rfl⟩
      . exact .inr (not_occurs_in_arg (c := 'S') (by decide) (by decide) (by decide) _)
      . exact .inl rfl
      . exact .inr (not_occurs_in_arg (c := 'S') (by decide) (by decide) (by decide) _)
    . exact .inr ha.2.1

theorem limit_rlim (h : Carries o args) :
    Invoker.limit (cmdLine args) rlim
      =
    if o.spicyLimit ≠ 0 ∧ o.spicyReuse ≠ 0 then some o.spicyReuse else none := by
  split
  . next hreuse =>
    apply limit_of_argument
    apply argument_cmdLine (by decide) (not_mem_ofNat _)
    . exact h.own _ (mem_appendedArgs.mpr (.inr (.inr ⟨hreuse.1, hreuse.2, rfl⟩)))
    . intro a ha
      rcases h.other a ha with ha | ha
      . rcases mem_appendedArgs.mp ha with rfl | rfl | ⟨_, _, rfl⟩
        . exact .inr (not_occurs_in_arg (c := 'R') (by decide) (by decide) (by decide) _)
        . exact .inr (not_occurs_in_arg (c := 'R') (by decide) (by decide) (by decide) _)
        . exact .inl rfl
      . exact .inr ha.2.2
  . next hreuse =>
    rw [Invoker.limit, argument_cmdLine_eq_none (by decide) (by decide)]
    . rfl
    . intro a ha
      rcases h.other a ha with ha | ha
      . rcases mem_appendedArgs.mp ha with rfl | rfl | ⟨hlimit, hcount, _⟩
        . exact not_occurs_in_arg (c := 'R') (by decide) (by decide) (by decide) _
        . exact not_occurs_in_arg (c := 'R') (by decide) (by decide) (by decide) _
        . exact absurd ⟨hlimit, hcount⟩ hreuse
      . exact ha.2.2

/--
The native side gets the limits of the host, but for a reuse limit of 0: it is not sent, and the default
stays.
-/
theorem init_of_carries (h : Carries o args) :
    Invoker.init (cmdLine args) .new
      =
    {
      requestConcurrencyLimit := o.concurrencyLimit
      hotInstanceLimit := o.spicyLimit
      hotInstanceReuseLimit :=
        if o.spicyLimit ≠ 0 ∧ o.spicyReuse ≠ 0 then
          o.spicyReuse
        else
          Invoker.Limits.new.hotInstanceReuseLimit
    } := by
  unfold Invoker.init
  simp only [limit_clim h, limit_slim h, limit_rlim h]
  by_cases hreuse : o.spicyLimit ≠ 0 ∧ o.spicyReuse ≠ 0
  . rw [if_pos hreuse, if_pos hreuse]
  . rw [if_neg hreuse, if_neg hreuse]

def exampleOptions : InvokerOptions where
  concurrencyLimit := 12
  spicyLimit := 4
  spicyReuse := 65535

theorem init_of_carries_example :
    Invoker.init
        (cmdLine (init exampleOptions 2 ["host_addr=1".toList] ++ ["allocid=7".toList])) .new
      =
    { requestConcurrencyLimit := 12, hotInstanceLimit := 4, hotInstanceReuseLimit := 65535 } := by
  have hbefore : Foreign "host_addr=1".toList :=
    foreign_of_not_mem (by decide) (by decide) (by decide)
  have hafter : Foreign "allocid=7".toList :=
    foreign_of_not_mem (by decide) (by decide) (by decide)
  have hcarries : Carries exampleOptions
      (init exampleOptions 2 ["host_addr=1".toList] ++ ["allocid=7".toList]) := by
    apply carries_init
    . rw [List.forall_mem_singleton]
      exact .inr hbefore
    . rw [List.forall_mem_singleton]
      exact hafter
  exact init_of_carries hcarries

def noReuse : InvokerOptions where
  concurrencyLimit := 12
  spicyLimit := 1
  spicyReuse := 0

theorem noReuse_not_kept :
    (Invoker.init (cmdLine (init noReuse 1 [])) .new).hotInstanceReuseLimit = 300
      ∧ noReuse.spicyLimit > 0
      ∧ noReuse.spicyReuse = 0 := by
  have hcarries : Carries noReuse (init noReuse 1 []) := by
    rw [← List.append_nil (init noReuse 1 [])]
    exact carries_init (by simp) (by simp) 0
  refine ⟨?_, by decide, rfl⟩
  simp only [Invoker.init, limit_clim hcarries, limit_slim hcarries, limit_rlim hcarries]
  rfl

end limits

end Dsys
end Seuss
