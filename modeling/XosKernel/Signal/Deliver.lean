/-
# Signal delivery and return

The model of `deliver_signal`, `force_sig`, `recalc_sigpending` and `sys_sigreturn` of
`kernel/bsd/signal.c`. Delivery saves the trap frame in a signal frame on the user stack
and makes the trap frame enter the handler; return copies the signal frame it finds at the
user stack pointer back into the trap frame.
-/
import XosKernel.Signal.Frame

namespace XosKernel.Signal

open Bytes

/-! ## Constants -/

def kernelVmaBoundary : BitVec 64 := 0xFFFFFF8000000000

def sigTrampolineAddr : BitVec 64 := 0x50000000

def sigkill : ℕ := 9

def sigsegv : ℕ := 11

def sigstop : ℕ := 19

def sigmask (sig : ℕ) : BitVec 64 := 1 <<< (sig - 1)

def siKernel : BitVec 32 := 128

def saSiginfo : BitVec 32 := 0x4

def saOnstack : BitVec 32 := 0x08000000

def saNodefer : BitVec 32 := 0x40000000

def ssOnstack : BitVec 32 := 1

def ssDisable : BitVec 32 := 2

def ssAutodisarm : BitVec 32 := 0x80000000

def sigDfl : BitVec 64 := 0

def sigIgn : BitVec 64 := 1

def has {w : ℕ} (flags flag : BitVec w) : Bool := flags &&& flag != 0

/-! ## State -/

/-- `sigaction_t`. -/
structure Sigaction where
  saHandler : BitVec 64
  saMask : BitVec 64
  saFlags : BitVec 32
  saRestorer : BitVec 64
deriving DecidableEq

/-- The signal state of a task: `proc->proc`, its `signal_struct`, the alternate stack, and
the cached bit `xtask.sig_pending`. -/
structure Task where
  sigPending : BitVec 64
  sharedPending : BitVec 64
  sigBlocked : BitVec 64
  signalPending : Bool
  sigForceInfo : Siginfo
  action : ℕ → Sigaction
  sasSsSp : BitVec 64
  sasSsSize : BitVec 64
  sasSsFlags : BitVec 32

/-- User memory: its bytes, and the addresses a store reaches without a fault that cannot be
resolved. -/
structure UserMem where
  byte : ℕ → ℕ
  writable : ℕ → Bool

def validateUserBuf (start len : BitVec 64) : Bool :=
  let stop := start + len
  !(start == 0 || stop < start || kernelVmaBoundary ≤ start || kernelVmaBoundary < stop)

/-- `copy_to_user`: whether it succeeds, and the memory after it. A fault leaves the bytes
before it written. -/
def copyToUser (m : UserMem) (dst : BitVec 64) (src : ℕ → ℕ) (size : ℕ) : Bool × UserMem :=
  if size ≠ 0 ∧ validateUserBuf dst (BitVec.ofNat 64 size) = false then (false, m)
  else
    (decide (∀ k < size, m.writable (dst.toNat + k) = true),
      { m with
        byte := fun x =>
          if dst.toNat ≤ x ∧ x < dst.toNat + size ∧
              ∀ k < x - dst.toNat + 1, m.writable (dst.toNat + k) = true
          then src (x - dst.toNat) else m.byte x })

/-! ## Pending signals -/

def recalcSigpending (t : Task) : Task :=
  let pend := t.sigPending ||| t.sharedPending
  let deliv := (pend &&& ~~~t.sigBlocked) ||| (pend &&& (sigmask sigkill ||| sigmask sigstop))
  { t with signalPending := deliv != 0 }

def forceSig (t : Task) (sig : ℕ) (siCode : BitVec 32) (siAddr : BitVec 64) : Task :=
  recalcSigpending
    { t with
      sigPending := t.sigPending ||| sigmask sig
      sigBlocked := t.sigBlocked &&& ~~~sigmask sig
      sigForceInfo := { siSigno := BitVec.ofNat 32 sig, siErrno := 0, siCode, siAddr }
      action := fun n =>
        if n = sig ∧ (t.action n).saHandler = sigIgn
        then { t.action n with saHandler := sigDfl } else t.action n }

/-! ## Delivery -/

def Task.forced (t : Task) (sig : ℕ) : Bool := t.sigForceInfo.siSigno == BitVec.ofNat 32 sig

/-- The handler runs on the alternate stack. -/
def Task.switchesStack (t : Task) (sa : Sigaction) : Bool :=
  has sa.saFlags saOnstack && !has t.sasSsFlags ssDisable && !has t.sasSsFlags ssOnstack &&
    0 < t.sasSsSize

def Sigaction.tramp (sa : Sigaction) : BitVec 64 :=
  if sa.saRestorer ≠ 0 then sa.saRestorer else sigTrampolineAddr

/-- The signal frame that `deliver_signal` builds. -/
def deliverFrame (t : Task) (tf : Trapframe) (sig : ℕ) (sa : Sigaction) : RtSigframe where
  pretcode := sa.tramp
  info :=
    if t.forced sig then t.sigForceInfo
    else { siSigno := BitVec.ofNat 32 sig, siErrno := 0, siCode := siKernel, siAddr := 0 }
  ucFlags := 0
  ucLink := 0
  ucStack :=
    { ssSp := t.sasSsSp
      ssFlags :=
        if t.switchesStack sa then ssOnstack
        else if has t.sasSsFlags ssDisable then ssDisable
        else t.sasSsFlags &&& ssOnstack
      ssSize := t.sasSsSize }
  ucMcontext :=
    { r8 := tf.r8
      r9 := tf.r9
      r10 := tf.r10
      r11 := tf.r11
      r12 := tf.r12
      r13 := tf.r13
      r14 := tf.r14
      r15 := tf.r15
      rdi := tf.rdi
      rsi := tf.rsi
      rbp := tf.rbp
      rbx := tf.rbx
      rdx := tf.rdx
      rax := tf.rax
      rcx := tf.rcx
      rsp := tf.rsp
      rip := tf.rip
      eflags := tf.rflags
      cs := tf.cs.setWidth 16
      cr2 := if t.forced sig then t.sigForceInfo.siAddr else 0 }
  ucSigmask := t.sigBlocked

/-- The address of the signal frame: below the stack in use, 16-byte aligned. -/
def deliverRsp (t : Task) (tf : Trapframe) (sa : Sigaction) : BitVec 64 :=
  ((if t.switchesStack sa then t.sasSsSp + t.sasSsSize else tf.rsp) -
    BitVec.ofNat 64 sizeofFrame) &&& ~~~0xF

/-- The task while the handler runs. -/
def deliverTask (t : Task) (sig : ℕ) (sa : Sigaction) : Task :=
  let newMask := if has sa.saFlags saNodefer then sa.saMask else sa.saMask ||| sigmask sig
  { t with
    sigBlocked := t.sigBlocked ||| (newMask &&& ~~~(sigmask sigkill ||| sigmask sigstop))
    sigForceInfo :=
      if t.forced sig then { t.sigForceInfo with siSigno := 0 } else t.sigForceInfo
    sasSsFlags :=
      if t.switchesStack sa then
        if has (t.sasSsFlags ||| ssOnstack) ssAutodisarm
        then t.sasSsFlags ||| ssOnstack ||| ssDisable else t.sasSsFlags ||| ssOnstack
      else t.sasSsFlags }

def enterHandler (tf : Trapframe) (sig : ℕ) (sa : Sigaction) (userRsp : BitVec 64) : Trapframe :=
  let tf := { tf with rip := sa.saHandler, rsp := userRsp - 8, rdi := BitVec.ofNat 64 sig }
  if has sa.saFlags saSiginfo then
    { tf with
      rsi := userRsp + BitVec.ofNat 64 offsetofInfo
      rdx := userRsp + BitVec.ofNat 64 offsetofUc }
  else tf

def deliverSignal (m : UserMem) (t : Task) (tf : Trapframe) (sig : ℕ) (sa : Sigaction) :
    UserMem × Task × Trapframe :=
  let userRsp := deliverRsp t tf sa
  let ret : List Field := [⟨0, 8, sa.tramp⟩]
  let (ctuFrame, m) := copyToUser m userRsp (deliverFrame t tf sig sa).bytes sizeofFrame
  let (ctuRet, m) := copyToUser m (userRsp - 8) (storeFields (fun _ => 0) 0 ret) 8
  if !ctuFrame || !ctuRet then
    (m, forceSig (deliverTask t sig sa) sigsegv siKernel userRsp, tf)
  else (m, deliverTask t sig sa, enterHandler tf sig sa userRsp)

/-! ## Return -/

/-- `sys_sigreturn`: the task and the trap frame after it. -/
def sysSigreturn (m : UserMem) (t : Task) (tf : Trapframe) : Task × Trapframe :=
  let frame := loadFrame m.byte tf.rsp.toNat
  let sc := frame.ucMcontext
  let tf :=
    { tf with
      r8 := sc.r8
      r9 := sc.r9
      r10 := sc.r10
      r11 := sc.r11
      r12 := sc.r12
      r13 := sc.r13
      r14 := sc.r14
      r15 := sc.r15
      rdi := sc.rdi
      rsi := sc.rsi
      rbp := sc.rbp
      rbx := sc.rbx
      rdx := sc.rdx
      rax := sc.rax
      rcx := sc.rcx
      rsp := sc.rsp
      rip := sc.rip
      rflags := sc.eflags
      cs := sc.cs.setWidth 64 }
  let t :=
    recalcSigpending
      { t with sigBlocked := frame.ucSigmask &&& ~~~sigmask sigkill &&& ~~~sigmask sigstop }
  let t :=
    if has frame.ucStack.ssFlags ssOnstack
    then { t with sasSsFlags := t.sasSsFlags &&& ~~~ssOnstack } else t
  (t, tf)

end XosKernel.Signal
