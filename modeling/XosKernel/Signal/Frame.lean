/-
# Trap frames and signal frames

The register frames of `arch/x64/trap.h` and `include/uapi/xos/signal.h` with the layout of
`struct rt_sigframe` in user memory. The fields of the signal frame that delivery leaves
zero and return does not read (segment registers other than `cs`, `err`, `trapno`,
`oldmask`, the floating point area) are not listed; delivery clears their bytes.
-/
import XosKernel.Lib.Record

namespace XosKernel.Signal

open Bytes List

structure Trapframe where
  r15 : BitVec 64
  r14 : BitVec 64
  r13 : BitVec 64
  r12 : BitVec 64
  r11 : BitVec 64
  r10 : BitVec 64
  r9 : BitVec 64
  r8 : BitVec 64
  rdi : BitVec 64
  rsi : BitVec 64
  rbp : BitVec 64
  rdx : BitVec 64
  rcx : BitVec 64
  rbx : BitVec 64
  rax : BitVec 64
  trapno : BitVec 64
  errCode : BitVec 64
  rip : BitVec 64
  cs : BitVec 64
  rflags : BitVec 64
  rsp : BitVec 64
  ss : BitVec 64
deriving DecidableEq

structure Sigcontext where
  r8 : BitVec 64
  r9 : BitVec 64
  r10 : BitVec 64
  r11 : BitVec 64
  r12 : BitVec 64
  r13 : BitVec 64
  r14 : BitVec 64
  r15 : BitVec 64
  rdi : BitVec 64
  rsi : BitVec 64
  rbp : BitVec 64
  rbx : BitVec 64
  rdx : BitVec 64
  rax : BitVec 64
  rcx : BitVec 64
  rsp : BitVec 64
  rip : BitVec 64
  eflags : BitVec 64
  cs : BitVec 16
  cr2 : BitVec 64
deriving DecidableEq

/-- `siginfo_t`, with the `si_addr` member of its union. -/
structure Siginfo where
  siSigno : BitVec 32
  siErrno : BitVec 32
  siCode : BitVec 32
  siAddr : BitVec 64
deriving DecidableEq

structure StackT where
  ssSp : BitVec 64
  ssFlags : BitVec 32
  ssSize : BitVec 64
deriving DecidableEq

/-- `struct rt_sigframe`; `ucSigmask` is the first word of `uc_sigmask`. -/
structure RtSigframe where
  pretcode : BitVec 64
  info : Siginfo
  ucFlags : BitVec 64
  ucLink : BitVec 64
  ucStack : StackT
  ucMcontext : Sigcontext
  ucSigmask : BitVec 64
deriving DecidableEq

def sizeofFrame : ℕ := 1072

/-- `offsetof(struct rt_sigframe, info)`. -/
def offsetofInfo : ℕ := 8

def offsetofUc : ℕ := 136

def RtSigframe.fields (f : RtSigframe) : List Field :=
  [⟨0, 8, f.pretcode⟩,
    ⟨8, 4, f.info.siSigno⟩, ⟨12, 4, f.info.siErrno⟩, ⟨16, 4, f.info.siCode⟩,
    ⟨24, 8, f.info.siAddr⟩,
    ⟨136, 8, f.ucFlags⟩, ⟨144, 8, f.ucLink⟩,
    ⟨152, 8, f.ucStack.ssSp⟩, ⟨160, 4, f.ucStack.ssFlags⟩, ⟨168, 8, f.ucStack.ssSize⟩,
    ⟨176, 8, f.ucMcontext.r8⟩, ⟨184, 8, f.ucMcontext.r9⟩, ⟨192, 8, f.ucMcontext.r10⟩,
    ⟨200, 8, f.ucMcontext.r11⟩, ⟨208, 8, f.ucMcontext.r12⟩, ⟨216, 8, f.ucMcontext.r13⟩,
    ⟨224, 8, f.ucMcontext.r14⟩, ⟨232, 8, f.ucMcontext.r15⟩, ⟨240, 8, f.ucMcontext.rdi⟩,
    ⟨248, 8, f.ucMcontext.rsi⟩, ⟨256, 8, f.ucMcontext.rbp⟩, ⟨264, 8, f.ucMcontext.rbx⟩,
    ⟨272, 8, f.ucMcontext.rdx⟩, ⟨280, 8, f.ucMcontext.rax⟩, ⟨288, 8, f.ucMcontext.rcx⟩,
    ⟨296, 8, f.ucMcontext.rsp⟩, ⟨304, 8, f.ucMcontext.rip⟩, ⟨312, 8, f.ucMcontext.eflags⟩,
    ⟨320, 2, f.ucMcontext.cs⟩, ⟨352, 8, f.ucMcontext.cr2⟩,
    ⟨432, 8, f.ucSigmask⟩]

def loadFrame (m : ℕ → ℕ) (base : ℕ) : RtSigframe where
  pretcode := load m 8 base
  info :=
    { siSigno := load m 4 (base + 8)
      siErrno := load m 4 (base + 12)
      siCode := load m 4 (base + 16)
      siAddr := load m 8 (base + 24) }
  ucFlags := load m 8 (base + 136)
  ucLink := load m 8 (base + 144)
  ucStack :=
    { ssSp := load m 8 (base + 152)
      ssFlags := load m 4 (base + 160)
      ssSize := load m 8 (base + 168) }
  ucMcontext :=
    { r8 := load m 8 (base + 176)
      r9 := load m 8 (base + 184)
      r10 := load m 8 (base + 192)
      r11 := load m 8 (base + 200)
      r12 := load m 8 (base + 208)
      r13 := load m 8 (base + 216)
      r14 := load m 8 (base + 224)
      r15 := load m 8 (base + 232)
      rdi := load m 8 (base + 240)
      rsi := load m 8 (base + 248)
      rbp := load m 8 (base + 256)
      rbx := load m 8 (base + 264)
      rdx := load m 8 (base + 272)
      rax := load m 8 (base + 280)
      rcx := load m 8 (base + 288)
      rsp := load m 8 (base + 296)
      rip := load m 8 (base + 304)
      eflags := load m 8 (base + 312)
      cs := load m 2 (base + 320)
      cr2 := load m 8 (base + 352) }
  ucSigmask := load m 8 (base + 432)

/-- The bytes of a signal frame, as delivery builds it on the kernel stack: cleared, then
filled field by field. -/
def RtSigframe.bytes (f : RtSigframe) : ℕ → ℕ := storeFields (fun _ => 0) 0 f.fields

variable (f : RtSigframe)

lemma RtSigframe.pairwise_fields : f.fields.Pairwise Field.Apart := by
  refine pairwise_apart ?_
  simp only [RtSigframe.fields, isChain_cons_cons, isChain_singleton]
  decide

lemma loadFrame_bytes : loadFrame f.bytes 0 = f := by
  have hload : ∀ g ∈ f.fields, load f.bytes g.bytes (0 + g.offset) = g.value :=
    fun g hg => load_storeFields f.pairwise_fields hg
  simp only [RtSigframe.fields, forall_mem_cons, not_mem_nil, false_implies,
    implies_true, and_true, Nat.add_zero] at hload
  simp only [loadFrame, hload]

lemma loadFrame_copy {m : ℕ → ℕ} {base : ℕ}
    (h : ∀ k < sizeofFrame, m (base + k) = f.bytes k) : loadFrame m base = f := by
  have hload : ∀ n o, o + n ≤ sizeofFrame → load m n (base + o) = load f.bytes n (0 + o) := by
    intro n o ho
    rw [Nat.zero_add]
    exact load_copy h ho
  have hhead : load m 8 base = load f.bytes 8 0 := load_copy (o := 0) h (by decide)
  calc loadFrame m base = loadFrame f.bytes 0 := by
        simp (disch := decide) only [loadFrame, hload, hhead]
    _ = f := loadFrame_bytes f

end XosKernel.Signal
